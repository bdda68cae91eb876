import Mathlib.Tactic

/-!
Trees with any number of children, their listings and what a listing determines.

* `Rose.preorder`: the labels of a tree, each with its depth, a node before what is
  below it.
* `Rose.attach`: the trees a list of labels with depths stands for when each label
  of depth `l + 1` is attached to the nearest earlier one of depth `l`;
  `attach_preorder` that this gives a tree back from its listing.
* `Rose.Same`: trees that differ in the order of siblings only, and
  `Same.preorder_perm` that their listings have the same lines.
-/

namespace OperatingSys

/-- A tree with labels at its nodes. -/
inductive Rose (α : Type*) where
  | node (a : α) (children : List (Rose α))

namespace Rose

variable {α : Type*}

/-- The induction rule of trees, the children of a node at once. -/
@[elab_as_elim]
theorem induct {P : Rose α → Prop} (node : ∀ a ts, (∀ t ∈ ts, P t) → P (.node a ts))
    (t : Rose α) : P t :=
  @Rose.rec α P (fun ts => ∀ t ∈ ts, P t) node (fun _ h => absurd h List.not_mem_nil)
    (fun _ _ ht hts _ h => (List.mem_cons.mp h).elim (fun heq => heq ▸ ht) (hts _)) t

mutual

/-- The labels of a tree whose root has depth `l`. -/
def preorder (l : ℕ) : Rose α → List (ℕ × α)
  | .node a ts => (l, a) :: preorderAll (l + 1) ts

/-- The labels of trees whose roots have depth `l`. -/
def preorderAll (l : ℕ) : List (Rose α) → List (ℕ × α)
  | [] => []
  | t :: ts => preorder l t ++ preorderAll l ts

end

lemma preorderAll_eq (l : ℕ) (ts : List (Rose α)) :
    preorderAll l ts = ts.flatMap (preorder l) := by
  induction ts with
  | nil => rfl
  | cons t ts ih => rw [preorderAll, ih, List.flatMap_cons]

/-! ### Listings back to trees -/

/-- A label takes the later trees of the next depth for its children: those that no
label between them and it has taken. -/
def attachLine (x : ℕ × α) (later : List (ℕ × Rose α)) : List (ℕ × Rose α) :=
  (x.1, .node x.2 ((later.filter fun t => decide (t.1 = x.1 + 1)).map Prod.snd))
    :: later.filter fun t => decide (t.1 ≠ x.1 + 1)

/-- Attach each label to the nearest earlier one of the depth before. What is left
are the trees of the labels to which there is no such one, with their depths. -/
def attach (xs : List (ℕ × α)) : List (ℕ × Rose α) := xs.foldr attachLine []

/-- Children followed by nothing of their depth are taken by their node. -/
lemma attachLine_children (l : ℕ) (a : α) (ts : List (Rose α)) {later : List (ℕ × Rose α)}
    (h : ∀ t ∈ later, t.1 ≤ l) :
    attachLine (l, a) (ts.map (fun t => (l + 1, t)) ++ later) = (l, .node a ts) :: later := by
  -- the children are one deeper than the node, so they are taken
  have htake : (ts.map fun t => (l + 1, t)).filter (fun t => decide (t.1 = l + 1))
      = ts.map fun t => (l + 1, t) := by
    rw [List.filter_eq_self]
    rintro ⟨k, t⟩ ht
    obtain ⟨u, -, hu⟩ := List.mem_map.mp ht
    rw [← hu]
    exact decide_eq_true rfl
  have hleave : (ts.map fun t => (l + 1, t)).filter (fun t => decide (t.1 ≠ l + 1)) = [] := by
    rw [List.filter_eq_nil_iff]
    rintro ⟨k, t⟩ ht
    obtain ⟨u, -, hu⟩ := List.mem_map.mp ht
    rw [← hu]
    simp
  -- what comes later is not
  have htake' : later.filter (fun t => decide (t.1 = l + 1)) = [] := by
    rw [List.filter_eq_nil_iff]
    intro t ht
    have := h t ht
    simp only [decide_eq_true_eq]
    omega
  have hleave' : later.filter (fun t => decide (t.1 ≠ l + 1)) = later := by
    rw [List.filter_eq_self]
    intro t ht
    have := h t ht
    simp only [ne_eq, decide_eq_true_eq]
    omega
  rw [attachLine, List.filter_append, List.filter_append, htake, htake', hleave, hleave',
    List.append_nil, List.nil_append, List.map_map]
  simp [Function.comp_def]

/-- A listed tree comes first among what is left, if nothing after it is deeper than
its root. -/
lemma attach_preorder_append (t : Rose α) {l : ℕ} {xs : List (ℕ × α)}
    (h : ∀ u ∈ attach xs, u.1 ≤ l) : attach (preorder l t ++ xs) = (l, t) :: attach xs := by
  induction t using Rose.induct generalizing l xs with
  | node a ts ih =>
      have hall : ∀ us : List (Rose α), (∀ u ∈ us, u ∈ ts) →
          attach (preorderAll (l + 1) us ++ xs) = us.map (fun u => (l + 1, u)) ++ attach xs := by
        intro us hus
        induction us with
        | nil => rfl
        | cons u us ih' =>
            have hrest := ih' fun v hv => hus v (List.mem_cons_of_mem _ hv)
            rw [preorderAll, List.append_assoc, ih u (hus u List.mem_cons_self), hrest]
            · rfl
            · -- what follows are siblings and what follows them
              intro v hv
              rw [hrest] at hv
              rcases List.mem_append.mp hv with hv | hv
              · obtain ⟨w, -, rfl⟩ := List.mem_map.mp hv
                exact le_rfl
              · exact (h v hv).trans (Nat.le_succ l)
      rw [preorder, List.cons_append, attach, List.foldr_cons]
      show attachLine (l, a) (attach (preorderAll (l + 1) ts ++ xs)) = _
      rw [hall ts fun u hu => hu, attachLine_children l a ts h]

/-- **A listing determines its tree.** -/
theorem attach_preorder (t : Rose α) (l : ℕ) : attach (preorder l t) = [(l, t)] := by
  have h : attach (preorder l t ++ []) = (l, t) :: attach [] :=
    attach_preorder_append t (by simp [attach])
  rwa [List.append_nil] at h

/-! ### The order of siblings -/

/-- The same tree up to the order of siblings. -/
inductive Same : Rose α → Rose α → Prop
  | node {a : α} {ts us vs : List (Rose α)} (hp : ts.Perm us) (hs : List.Forall₂ Same us vs) :
      Same (.node a ts) (.node a vs)

/-- The order of siblings moves the lines of a listing and changes none. -/
theorem Same.preorder_perm {t u : Rose α} (h : Same t u) (l : ℕ) :
    (preorder l t).Perm (preorder l u) := by
  induction t using Rose.induct generalizing u l with
  | node a ts ih =>
      cases h with
      | @node _ _ us vs hp hs =>
          have hall : ∀ us' vs' : List (Rose α), (∀ u ∈ us', u ∈ ts) → List.Forall₂ Same us' vs' →
              (us'.flatMap (preorder (l + 1))).Perm (vs'.flatMap (preorder (l + 1))) := by
            intro us' vs' hmem hf
            induction hf with
            | nil => exact List.Perm.refl _
            | @cons u v us' vs' huv _ ih' =>
                rw [List.flatMap_cons, List.flatMap_cons]
                exact (ih u (hmem u List.mem_cons_self) huv _).append
                  (ih' fun w hw => hmem w (List.mem_cons_of_mem _ hw))
          rw [preorder, preorder, preorderAll_eq, preorderAll_eq]
          exact ((hp.flatMap_right _).trans (hall us vs (fun u hu => hp.mem_iff.mpr hu) hs)).cons _

end Rose

end OperatingSys
