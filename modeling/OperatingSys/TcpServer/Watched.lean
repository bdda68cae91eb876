import OperatingSys.TcpServer.Table

/-!
What the TCP server waits for, and how many clients it takes.

At `select` the set is the master and the clients that have been accepted and not closed,
and `nfds` lies above all of them (`selecting_of_run`). `handle_connection` finds an empty
slot as long as there are less than `MAX_CLIENTS_COUNT` such clients, and with one more the
whole server exits (`watched_and_full`).
-/

namespace OperatingSys

namespace TcpServer

variable {masterSd : ℤ} {others : Finset ℤ} {tr : List (Answer × Event)} {s s' : Server}
  {a : Answer} {e : Event}

/-! ### The set for `select` -/

/-- A turn of the first `for`. -/
def addClient (clients : Table) (q : Finset ℤ × ℤ) (i : Fin MAX_CLIENTS_COUNT) : Finset ℤ × ℤ :=
  (if 0 < clients i then insert (clients i) q.1 else q.1,
    if q.2 < clients i then clients i else q.2)

lemma buildSet_eq (masterSd : ℤ) (clients : Table) : buildSet masterSd clients
    = (List.finRange MAX_CLIENTS_COUNT).foldl (addClient clients) ({masterSd}, masterSd) := rfl

/-- What some turns of the first `for` come to. -/
lemma foldl_addClient (clients : Table) (l : List (Fin MAX_CLIENTS_COUNT)) (q : Finset ℤ × ℤ) :
    (∀ d, d ∈ (l.foldl (addClient clients) q).1
        ↔ d ∈ q.1 ∨ ∃ i ∈ l, 0 < clients i ∧ clients i = d)
      ∧ q.2 ≤ (l.foldl (addClient clients) q).2
      ∧ ∀ i ∈ l, clients i ≤ (l.foldl (addClient clients) q).2 := by
  induction l generalizing q with
  | nil => simp
  | cons i l ih =>
      obtain ⟨hmem, hle, hall⟩ := ih (addClient clients q i)
      -- the maximum does not fall
      have hmax : q.2 ≤ (addClient clients q i).2 ∧ clients i ≤ (addClient clients q i).2 := by
        rw [addClient]
        dsimp only
        split_ifs with hlt
        · exact ⟨hlt.le, le_rfl⟩
        · exact ⟨le_rfl, not_lt.mp hlt⟩
      rw [List.foldl_cons]
      refine ⟨fun d => ?_, hmax.1.trans hle, fun j hj => ?_⟩
      · rw [hmem, addClient]
        dsimp only
        split_ifs with hpos
        · rw [Finset.mem_insert]
          constructor
          · rintro ((rfl | hd) | ⟨j, hj, hd⟩)
            · exact Or.inr ⟨i, List.mem_cons_self, hpos, rfl⟩
            · exact Or.inl hd
            · exact Or.inr ⟨j, List.mem_cons_of_mem _ hj, hd⟩
          · rintro (hd | ⟨j, hj, hd⟩)
            · exact Or.inl (Or.inr hd)
            · rcases List.mem_cons.mp hj with rfl | hj
              · exact Or.inl (Or.inl hd.2.symm)
              · exact Or.inr ⟨j, hj, hd⟩
        · refine or_congr_right ⟨?_, ?_⟩
          · rintro ⟨j, hj, hd⟩
            exact ⟨j, List.mem_cons_of_mem _ hj, hd⟩
          · rintro ⟨j, hj, hd⟩
            rcases List.mem_cons.mp hj with rfl | hj
            · exact absurd hd.1 hpos
            · exact ⟨j, hj, hd⟩
      · rcases List.mem_cons.mp hj with rfl | hj
        · exact hmax.2.trans hle
        · exact hall j hj

/-- The set holds the master and the clients, and nothing above `max_sd`. -/
lemma mem_buildSet {clients : Table} (hpos : ∀ i, 0 ≤ clients i) {d : ℤ} :
    d ∈ (buildSet masterSd clients).1 ↔ d = masterSd ∨ Slots.Holds 0 clients d := by
  rw [buildSet_eq, (foldl_addClient clients _ _).1, Finset.mem_singleton]
  refine or_congr_right ⟨?_, ?_⟩
  · rintro ⟨i, -, hi, rfl⟩
    exact ⟨hi.ne', i, rfl⟩
  · rintro ⟨hne, i, rfl⟩
    exact ⟨i, List.mem_finRange i, lt_of_le_of_ne (hpos i) hne.symm, rfl⟩

lemma le_of_mem_buildSet {clients : Table} (hpos : ∀ i, 0 ≤ clients i) {d : ℤ}
    (hd : d ∈ (buildSet masterSd clients).1) : d ≤ (buildSet masterSd clients).2 := by
  obtain ⟨-, hmaster, hall⟩ := foldl_addClient clients (List.finRange MAX_CLIENTS_COUNT)
    ({masterSd}, masterSd)
  rw [mem_buildSet hpos] at hd
  rcases hd with rfl | ⟨-, i, rfl⟩
  · exact hmaster
  · exact hall i (List.mem_finRange i)

/-! ### Along the runs -/

/-- The entries of the table are descriptors that `accept` has returned, or `0`; at `select`
the set is the one built of them. -/
structure Watch (masterSd : ℤ) (s : Server) : Prop where
  nonneg : ∀ i, 0 ≤ s.clients i
  built : ∀ maxSd, s.pc = .selecting maxSd → s.readfds = (buildSet masterSd s.clients).1
    ∧ maxSd = (buildSet masterSd s.clients).2

lemma Watch.step (hs : Watch masterSd s) (h : ServerStep masterSd s e s')
    (hpc : s'.pc ≠ .exited) : Watch masterSd s' := by
  obtain ⟨hnonneg, -⟩ := hs
  cases h with
  | builds =>
      refine ⟨hnonneg, fun maxSd hmax => ⟨rfl, ?_⟩⟩
      cases hmax
      rfl
  | selects | starts | receives | skips | ends =>
      exact ⟨hnonneg, fun maxSd hmax => by cases hmax⟩
  | accepts _ sd hpos _ i _ =>
      refine ⟨?_, fun maxSd hmax => by cases hmax⟩
      rw [Function.forall_update_iff s.clients fun _ x => 0 ≤ x]
      exact ⟨hpos.le, fun j _ => hnonneg j⟩
  | closes i =>
      refine ⟨?_, fun maxSd hmax => by cases hmax⟩
      rw [Function.forall_update_iff s.clients fun _ x => 0 ≤ x]
      exact ⟨le_rfl, fun j _ => hnonneg j⟩
  | exits _ hx => exact absurd hx hpc

lemma watch_of_run (h : (program masterSd).Run (initial masterSd others) tr s)
    (hpc : s.pc ≠ .exited) : Watch masterSd s := by
  revert hpc
  refine h.induct_trace (I := fun _ s => s.pc ≠ .exited → Watch masterSd s) ?_ ?_
  · exact fun _ => ⟨fun _ => le_rfl, fun maxSd hmax => by cases hmax⟩
  · intro tr s a e s' ih hstep hpc
    exact (ih (pc_ne_exited hstep)).step (serverStep_of_serve hstep) hpc

/-! ### The number of clients -/

/-- The clients of the table. -/
def present (clients : Table) : Finset ℤ :=
  (Finset.univ.filter fun i => clients i ≠ 0).image clients

lemma mem_present {clients : Table} {d : ℤ} : d ∈ present clients ↔ Slots.Holds 0 clients d := by
  rw [present, Finset.mem_image]
  constructor
  · rintro ⟨i, hi, rfl⟩
    exact ⟨(Finset.mem_filter.mp hi).2, i, rfl⟩
  · rintro ⟨hne, i, rfl⟩
    exact ⟨i, Finset.mem_filter.mpr ⟨Finset.mem_univ i, hne⟩, rfl⟩

/-- There is an empty slot unless the table holds `MAX_CLIENTS_COUNT` clients. -/
lemma emptySlot_eq_none_iff {clients : Table} (hd : Slots.Distinct 0 clients) :
    emptySlot clients = none ↔ (present clients).card = MAX_CLIENTS_COUNT := by
  have hcard : (present clients).card = (Finset.univ.filter fun i => clients i ≠ 0).card :=
    Finset.card_image_of_injOn fun i hi j _ hij => hd i j (Finset.mem_filter.mp hi).2 hij
  have hall : (Finset.univ : Finset (Fin MAX_CLIENTS_COUNT)).card = MAX_CLIENTS_COUNT :=
    Finset.card_fin _
  have hfull : (present clients).card = MAX_CLIENTS_COUNT ↔ ∀ i, clients i ≠ 0 := by
    rw [hcard, ← hall.congr_right, Finset.card_filter_eq_iff]
    exact ⟨fun h i => h i (Finset.mem_univ i), fun h i _ => h i⟩
  rw [hfull, emptySlot, List.find?_eq_none]
  simp [List.mem_finRange]

/-- **What the server waits for, and its limit**: in every run, at `select` the set is the
master and the clients accepted and not closed, and `nfds` lies above them, so that every
part of them may be reported; and a new connection is taken as long as these clients are less
than `MAX_CLIENTS_COUNT`, and makes the server exit when they are as many, which is the most
there are. Nothing else is open beside the master and `others`. -/
theorem watched_and_full (h : (program masterSd).Run (initial masterSd others) tr s)
    (hpc : s.pc ≠ .exited) :
    (∀ maxSd, s.pc = .selecting maxSd →
        (∀ d, d ∈ s.readfds ↔ d = masterSd ∨ Pending d tr)
          ∧ ∀ ready ⊆ s.readfds, ∃ s', (program masterSd).step s (.selected ready)
            = some (.selects s.readfds ready, s'))
      ∧ ∃ clients : Finset ℤ, (∀ d, d ∈ clients ↔ Pending d tr)
        ∧ (∀ d ∈ s.opened, d = masterSd ∨ d ∈ others ∨ d ∈ clients)
        ∧ clients.card ≤ MAX_CLIENTS_COUNT
        ∧ (s.pc = .connecting → masterSd ∈ s.readfds → ∀ sd, 0 < sd → sd ∉ s.opened →
          ∃ e s', (program masterSd).step s (.accepted sd) = some (e, s')
            ∧ (s'.pc = .exited ↔ clients.card = MAX_CLIENTS_COUNT)
            ∧ (clients.card < MAX_CLIENTS_COUNT → e = .accepts sd)) := by
  have haccount := account_of_run h hpc
  have hwatch := watch_of_run h hpc
  have hpresent : ∀ d, d ∈ present s.clients ↔ Pending d tr := fun d => by
    rw [mem_present, haccount.pending]
  refine ⟨fun maxSd hmax => ?_, present s.clients, hpresent, fun d hd => ?_, ?_,
    fun hconn hmaster sd hpos hnew => ?_⟩
  · -- the set is still the one that has been built
    obtain ⟨hset, rfl⟩ := hwatch.built maxSd hmax
    refine ⟨fun d => ?_, fun ready hready => ?_⟩
    · rw [hset, mem_buildSet hwatch.nonneg, haccount.pending]
    · have hbelow : ready ⊆ s.readfds.filter (· < (buildSet masterSd s.clients).2 + 1) := by
        intro d hd
        rw [Finset.mem_filter]
        refine ⟨hready hd, Int.lt_add_one_iff.mpr ?_⟩
        exact le_of_mem_buildSet hwatch.nonneg (hset ▸ hready hd)
      refine ⟨{ s with readfds := ready, pc := .connecting }, ?_⟩
      change serve masterSd s (.selected ready) = _
      unfold serve
      rw [hmax]
      exact if_pos hbelow
  · rw [mem_present]
    exact haccount.covered d hd
  · refine Finset.card_image_le.trans ?_
    exact (Finset.card_filter_le _ _).trans (Finset.card_fin _).le
  · have hstep : (program masterSd).step s (.accepted sd)
        = some (handleConnection masterSd s sd) := by
      change serve masterSd s (.accepted sd) = _
      unfold serve
      rw [hconn]
      change connect masterSd s (.accepted sd) = _
      unfold connect
      rw [if_pos hmaster]
      exact if_pos ⟨hpos, hnew⟩
    refine ⟨_, _, hstep, ?_⟩
    -- it exits where it finds no empty slot
    have hnone := emptySlot_eq_none_iff haccount.distinct
    cases hslot : emptySlot s.clients with
    | none => exact ⟨iff_of_true rfl (hnone.mp hslot), fun hlt => absurd (hnone.mp hslot) hlt.ne⟩
    | some i =>
        have hne : (present s.clients).card ≠ MAX_CLIENTS_COUNT := fun hfull => by
          rw [hnone.mpr hfull] at hslot
          cases hslot
        exact ⟨iff_of_false (by simp) hne, fun _ => rfl⟩

/-- A client is accepted, and in the next iteration another one. -/
theorem watched_and_full_two : ∃ tr s, (program 3).Run (initial 3 {0, 1, 2}) tr s
    ∧ ∃ clients : Finset ℤ, (∀ d, d ∈ clients ↔ Pending d tr) ∧ 4 ∈ clients
      ∧ ∃ e s', (program 3).step s (.accepted 5) = some (e, s')
        ∧ (s'.pc = .exited ↔ clients.card = MAX_CLIENTS_COUNT) := by
  obtain ⟨tr, s, h, hp⟩ := Machine.exists_run (show ((program 3).exec
    ([.goes, .selected {3}, .accepted 4] ++ List.replicate 11 .goes ++ [.goes, .selected {3}])
      (initial 3 {0, 1, 2})).any (fun r => (r.2.pc = .connecting && r.2.clients ⟨0, by decide⟩ = 4)
        && (3 ∈ r.2.readfds && 5 ∉ r.2.opened)) = true by decide)
  simp only [Bool.and_eq_true, decide_eq_true_eq] at hp
  obtain ⟨⟨hpc, h0⟩, hready, hnew⟩ := hp
  obtain ⟨-, clients, hclients, -, -, haccept⟩ := watched_and_full h (by rw [hpc]; simp)
  obtain ⟨e, s', hstep, hfull, -⟩ := haccept hpc hready 5 (by norm_num) hnew
  refine ⟨tr, s, h, clients, hclients, ?_, e, s', hstep, hfull⟩
  rw [hclients, (account_of_run h (by rw [hpc]; simp)).pending]
  exact ⟨by norm_num, _, h0⟩

end TcpServer

end OperatingSys
