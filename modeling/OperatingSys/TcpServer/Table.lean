import OperatingSys.TcpServer.Basic
import OperatingSys.Foundations.Since
import OperatingSys.Foundations.Slots

/-!
The table of clients along the runs of the TCP server.

A step only changes the table where `accept` has just returned a new descriptor or
where `recv` has returned `0`. The account of the table (`Account`) ties it to the
past of the run: the descriptors in it are the ones accepted since they were last
closed. The second account (`Reported`) is that of `readfds`: between `select` and
the end of the iteration it is what this call of `select` has reported.
-/

namespace OperatingSys

namespace TcpServer

/-- `d` has been accepted, and `handle_client` has not closed it since. -/
def Pending (d : ℤ) (tr : List (Answer × Event)) : Prop :=
  Since (fun q => q.2 = .accepts d) (fun q => q.2 = .handles d 0) tr

/-- In this iteration `select` was given `d` and has reported it. -/
def Ready (d : ℤ) (tr : List (Answer × Event)) : Prop :=
  Since (fun q => ∃ passed ready, q.2 = .selects passed ready ∧ d ∈ passed ∧ d ∈ ready)
    (fun q => q.2 = .builds) tr

/-- After `select` in the main loop, before the end of the iteration. -/
def Pc.selected : Pc → Bool
  | .connecting | .scanning _ => true
  | .building | .selecting _ | .exited => false

/-- **The account of the table**: its entries are distinct, open and not the
master, and they are the descriptors that were accepted and not yet closed. Nothing else
is open beside the master and `others`. -/
structure Account (masterSd : ℤ) (others : Finset ℤ) (tr : List (Answer × Event)) (s : Server) :
    Prop where
  master : masterSd ∈ s.opened
  opened : ∀ i, s.clients i ≠ 0 → s.clients i ∈ s.opened ∧ s.clients i ≠ masterSd
  covered : ∀ d ∈ s.opened, d = masterSd ∨ d ∈ others ∨ Slots.Holds 0 s.clients d
  distinct : Slots.Distinct 0 s.clients
  pending : ∀ d, Pending d tr ↔ Slots.Holds 0 s.clients d

/-- **The account of `readfds`**: after `select` it is what this call has
reported of what it was given. -/
def Reported (tr : List (Answer × Event)) (s : Server) : Prop :=
  s.pc.selected = true → ∀ d ∈ s.readfds, Ready d tr

variable {masterSd : ℤ} {others : Finset ℤ} {tr : List (Answer × Event)} {s s' : Server}
  {a : Answer} {e : Event}

/-! ### The table -/

lemma pending_append_singleton {d : ℤ} :
    Pending d (tr ++ [(a, e)]) ↔ e = .accepts d ∨ (Pending d tr ∧ e ≠ .handles d 0) :=
  since_append_singleton

/-- A step that changes neither the table nor what is open, and neither accepts
nor closes. -/
lemma Account.keep (hs : Account masterSd others tr s) (hc : s'.clients = s.clients)
    (ho : s'.opened = s.opened) (ha : ∀ d, e ≠ .accepts d) (hh : ∀ d, e ≠ .handles d 0) :
    Account masterSd others (tr ++ [(a, e)]) s' := by
  obtain ⟨hmaster, hopened, hcovered, hdistinct, hpending⟩ := hs
  refine ⟨by rwa [ho], by rwa [hc, ho], by rwa [hc, ho], by rwa [hc], fun d => ?_⟩
  rw [hc, ← hpending d, pending_append_singleton]
  exact ⟨fun h => h.resolve_left (ha d) |>.1, fun h => Or.inr ⟨h, hh d⟩⟩

/-- `handle_connection` fills an empty slot. -/
lemma Account.accepts (hs : Account masterSd others tr s) {sd : ℤ} (hpos : 0 < sd)
    (hnew : sd ∉ s.opened) {i : Fin MAX_CLIENTS_COUNT} (hi : s.clients i = 0) {pc : Pc} :
    Account masterSd others (tr ++ [(a, .accepts sd)]) { s with
      clients := Function.update s.clients i sd
      opened := insert sd s.opened
      pc := pc } where
  master := Finset.mem_insert_of_mem hs.master
  opened := by
    rw [Function.forall_update_iff s.clients fun _ x => x ≠ 0 → x ∈ insert sd s.opened ∧
      x ≠ masterSd]
    refine ⟨fun _ => ⟨Finset.mem_insert_self _ _, ?_⟩, fun j _ hj => ?_⟩
    · -- a new descriptor is not the master
      rintro rfl
      exact hnew hs.master
    · obtain ⟨hin, hne⟩ := hs.opened j hj
      exact ⟨Finset.mem_insert_of_mem hin, hne⟩
  covered := by
    intro d hd
    rw [Slots.holds_put hi hpos.ne']
    rcases Finset.mem_insert.mp hd with rfl | hd
    · exact Or.inr (Or.inr (Or.inl rfl))
    · exact (hs.covered d hd).imp id fun h => h.imp id Or.inr
  distinct := by
    refine hs.distinct.put ?_
    rintro ⟨hsd, j, rfl⟩
    -- nor is it in a slot already
    exact hnew (hs.opened j hsd).1
  pending := by
    intro d
    rw [Slots.holds_put hi hpos.ne', ← hs.pending d, pending_append_singleton]
    simp [eq_comm]

/-- `handle_client` closes a disconnected client and empties its slot. -/
lemma Account.closes (hs : Account masterSd others tr s) {i : Fin MAX_CLIENTS_COUNT}
    (hi : s.clients i ≠ 0) {pc : Pc} :
    Account masterSd others (tr ++ [(a, .handles (s.clients i) 0)]) { s with
      clients := Function.update s.clients i 0
      opened := s.opened.erase (s.clients i)
      pc := pc } where
  master := Finset.mem_erase_of_ne_of_mem (hs.opened i hi).2.symm hs.master
  opened := by
    rw [Function.forall_update_iff s.clients fun _ x => x ≠ 0 →
      x ∈ s.opened.erase (s.clients i) ∧ x ≠ masterSd]
    refine ⟨fun h0 => absurd rfl h0, fun j hji hj => ?_⟩
    obtain ⟨hin, hne⟩ := hs.opened j hj
    refine ⟨Finset.mem_erase_of_ne_of_mem ?_ hin, hne⟩
    exact fun heq => hji (hs.distinct j i hj heq)
  covered := by
    intro d hd
    obtain ⟨hne, hin⟩ := Finset.mem_erase.mp hd
    rw [Slots.holds_clear hs.distinct hi]
    exact (hs.covered d hin).imp id fun h => h.imp id fun hheld => ⟨hne, hheld⟩
  distinct := hs.distinct.clear
  pending := by
    intro d
    rw [Slots.holds_clear hs.distinct hi, ← hs.pending d, pending_append_singleton]
    simp [and_comm, eq_comm]

/-- Every step keeps the account, but for an exit. -/
lemma Account.step (hs : Account masterSd others tr s) (h : ServerStep masterSd s e s')
    (hpc : s'.pc ≠ .exited) : Account masterSd others (tr ++ [(a, e)]) s' := by
  cases h with
  | builds | selects | starts | skips | ends =>
      exact hs.keep rfl rfl (by simp) (by simp)
  | accepts _ sd hpos hnew i hi => exact hs.accepts hpos hnew hi
  | closes i _ h0 => exact hs.closes h0
  | receives i _ bytes hb => exact hs.keep rfl rfl (by simp) (by simp [hb])
  | exits _ hx => exact absurd hx hpc

/-- The account holds until the exit. -/
lemma account_of_run (h : (program masterSd).Run (initial masterSd others) tr s)
    (hpc : s.pc ≠ .exited) : Account masterSd others tr s := by
  revert hpc
  refine h.induct_trace (I := fun tr s => s.pc ≠ .exited → Account masterSd others tr s) ?_ ?_
  · intro _
    refine ⟨Finset.mem_insert_self _ _, fun _ h0 => absurd rfl h0, fun d hd => ?_,
      fun _ _ h0 => absurd rfl h0, fun d => iff_of_false not_since_nil ?_⟩
    · exact (Finset.mem_insert.mp hd).imp id Or.inl
    · rintro ⟨h0, _, hd⟩
      exact h0 hd.symm
  · intro tr s a e s' ih hstep hpc
    exact (ih (pc_ne_exited hstep)).step (serverStep_of_serve hstep) hpc

/-! ### What `select` has reported -/

/-- Every step keeps the account of `readfds`. -/
lemma Reported.step (hs : Reported tr s) (h : ServerStep masterSd s e s') :
    Reported (tr ++ [(a, e)]) s' := by
  have hkeep : s.pc.selected = true → e ≠ .builds → s'.readfds = s.readfds →
      Reported (tr ++ [(a, e)]) s' := by
    intro hsel he hr _ d hd
    rw [hr] at hd
    exact (hs hsel d hd).goesOn he
  cases h with
  | builds | ends | exits => intro hsel; simp_all [Pc.selected]
  | selects _ ready hr => exact fun _ d hd => .start ⟨_, _, rfl, hr hd, hd⟩
  | accepts hpc | starts hpc => exact hkeep (by rw [hpc]; rfl) (by simp) rfl
  | closes i hpc | receives i hpc | skips i hpc => exact hkeep (by rw [hpc]; rfl) (by simp) rfl

lemma reported_of_run (h : (program masterSd).Run (initial masterSd others) tr s) :
    Reported tr s := by
  refine h.induct_trace (I := Reported) (fun hsel => by cases hsel) ?_
  exact fun tr s a e s' ih hstep => ih.step (serverStep_of_serve hstep)

/-- A call of `handle_client` is made with a client in `readfds`, after `select`. -/
lemma mem_readfds_of_handles {d bytes : ℤ} (h : ServerStep masterSd s (.handles d bytes) s') :
    s.pc.selected = true ∧ d ∈ s.readfds := by
  cases h with
  | closes i hpc _ hr => exact ⟨by rw [hpc]; rfl, hr⟩
  | receives i hpc _ _ _ hr => exact ⟨by rw [hpc]; rfl, hr⟩

/-! ### The result -/

/-- **The table of clients**: in every run, before a possible exit, the clients are
open, different from the master and from each other, every descriptor accepted and not
yet closed is in exactly one slot, and so is every one that is open beside the master and
`others`; `handle_client` is called only for a descriptor that `select` was given and has
reported in the same iteration. -/
theorem client_table (h : (program masterSd).Run (initial masterSd others) tr s) :
    (s.pc ≠ .exited →
      (∀ i, s.clients i ≠ 0 → s.clients i ∈ s.opened ∧ s.clients i ≠ masterSd)
        ∧ (∀ i j, s.clients i ≠ 0 → s.clients i = s.clients j → i = j)
        ∧ (∀ d, Pending d tr → ∃! i, s.clients i = d)
        ∧ ∀ d ∈ s.opened, d ≠ masterSd → d ∉ others → ∃! i, s.clients i = d)
      ∧ ∀ before b d bytes after, tr = before ++ (b, .handles d bytes) :: after →
          Ready d before := by
  constructor
  · intro hpc
    have hs := account_of_run h hpc
    refine ⟨hs.opened, hs.distinct,
      fun d hd => hs.distinct.existsUnique ((hs.pending d).mp hd), fun d hd hmaster hother => ?_⟩
    exact hs.distinct.existsUnique
      (((hs.covered d hd).resolve_left hmaster).resolve_left hother)
  · rintro before b d bytes after rfl
    obtain ⟨t, t', hrun, hstep, -⟩ := h.split_cons
    obtain ⟨hsel, hd⟩ := mem_readfds_of_handles (serverStep_of_serve hstep)
    exact reported_of_run hrun hsel d hd

/-- Two clients, of which the first disconnects; its descriptor and its slot are taken again by
a third one, and the second sends a message. -/
theorem client_table_two : ∃ tr s, (program 3).Run (initial 3 {0, 1, 2}) tr s
    ∧ (∃! i, s.clients i = 4) ∧ (∃! i, s.clients i = 5)
    ∧ ∃ before, Ready 5 before ∧ before <+: tr := by
  obtain ⟨tr, s, h, hp⟩ := Machine.exists_run (show ((program 3).exec
    ([.goes, .selected {3}, .accepted 4] ++ List.replicate 11 .goes
      ++ [.goes, .selected {3, 4}, .accepted 5, .received 0] ++ List.replicate 10 .goes
      ++ [.goes, .selected {3, 5}, .accepted 4, .goes, .received 7]) (initial 3 {0, 1, 2})).any
    (fun r => (r.2.pc = .scanning 2 && (4 ∈ r.2.opened && 5 ∈ r.2.opened))
      && r.1.any fun q => q.2 = .handles 5 7) = true by decide +kernel)
  simp only [Bool.and_eq_true, decide_eq_true_eq, List.any_eq_true] at hp
  obtain ⟨⟨hpc, hfour, hfive⟩, ⟨b, e⟩, hq, rfl⟩ := hp
  obtain ⟨before, after, rfl⟩ := List.append_of_mem hq
  obtain ⟨htable, hready⟩ := client_table h
  obtain ⟨-, -, -, hopened⟩ := htable (by rw [hpc]; simp)
  exact ⟨_, s, h, hopened 4 hfour (by decide) (by decide), hopened 5 hfive (by decide) (by decide),
    before, hready before b 5 7 after rfl, List.prefix_append _ _⟩

end TcpServer

end OperatingSys
