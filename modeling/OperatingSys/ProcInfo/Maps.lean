import OperatingSys.ProcInfo.Basic

/-!
The memory map of a process, `maps_info`.

Each piece of the file is ended in place, behind its last byte, and printed as a string.
A piece that fills `buf` leaves no room for the terminator (`endBody_full`), and every
file of at least `BUFSIZ` bytes begins with such a piece (`mapsInfo_eq_none`).
-/

namespace OperatingSys

namespace ProcInfo

open Pagemap (BUFSIZ)

/-- The body of the loop of `maps_info`: `buf[len] = 0; fputs(buf, out);`. -/
def endBody (len : ℕ) (b : Text) : Option (Text × Text) := do
  let b ← poke b len 0
  let shown ← cstr b 0
  return (shown, b)

/-- What `maps_info` prints of `/proc/pid/maps`. -/
def mapsInfo (maps : Text) : Option Text := readThrough endBody maps

/-! ### A piece -/

/-- A piece that leaves room behind it is printed whole. -/
lemma endBody_eq {piece : Text} (h0 : (0 : UInt8) ∉ piece) (c : UInt8) (rest : Text) :
    endBody piece.length (piece ++ c :: rest) = some (piece, piece ++ 0 :: rest) := by
  have hstr : cstr (piece ++ 0 :: rest) 0 = some piece := cstr_front h0 rest
  simp only [endBody, poke_append, hstr, Option.bind_eq_bind, Option.bind_some]
  rfl

/-- A piece that fills the buffer is ended behind it. -/
lemma endBody_full (b : Text) : endBody b.length b = none := by
  have hout : poke b (b.length : ℤ) 0 = none := if_neg (by omega)
  rw [endBody, hout]
  rfl

/-! ### A file -/

lemma mapsInfo_eq_none {maps : Text} (h : BUFSIZ ≤ maps.length) : mapsInfo maps = none := by
  have hne : maps ≠ [] := by
    rintro rfl
    exact absurd h (by decide)
  have hlen : (maps.take BUFSIZ).length = BUFSIZ := List.length_take_of_le h
  have hfirst : (freadLoop endBody).step zeros (maps.take BUFSIZ) = none := by
    change (blit zeros 0 (maps.take BUFSIZ)).bind _ = none
    rw [blit_piece zeros_length hlen.le, Option.bind_some, hlen, List.drop_of_length_le
      zeros_length.le, List.append_nil]
    exact (congrArg (endBody · _) hlen.symm).trans (endBody_full _)
  rw [mapsInfo, readThrough, freads_of_ne_nil hne, Machine.exec_cons_none hfirst]
  rfl

lemma mapsInfo_of_lt {maps : Text} (h0 : (0 : UInt8) ∉ maps) (h : maps.length < BUFSIZ) :
    mapsInfo maps = some maps := by
  by_cases hnil : maps = []
  · rw [hnil, mapsInfo, readThrough, freads, chunks_nil]
    rfl
  · obtain ⟨k, hk⟩ := Nat.exists_eq_add_of_lt h
    have hrest : zeros.drop maps.length = 0 :: List.replicate k 0 := by
      rw [zeros, List.drop_replicate, hk, Nat.add_assoc, Nat.add_sub_cancel_left]
      rfl
    rw [mapsInfo, readThrough_of_le hnil h.le, hrest, endBody_eq h0]
    rfl

/-- **The defect of the copy, exactly**: a memory map without terminators is printed as it
is, with every access inside `buf`, just when it has fewer than `BUFSIZ` bytes. -/
theorem maps_kept_iff (maps : Text) (h0 : (0 : UInt8) ∉ maps) :
    mapsInfo maps = some maps ↔ maps.length < BUFSIZ := by
  constructor
  · intro h
    by_contra hlong
    rw [mapsInfo_eq_none (Nat.not_lt.mp hlong)] at h
    cases h
  · exact mapsInfo_of_lt h0

/-- Two maps of one letter again and again: the first leaves a byte of `buf` free, and the second
does not. -/
theorem maps_kept_iff_two_lengths :
    (mapsInfo (List.replicate (BUFSIZ - 1) 65) = some (List.replicate (BUFSIZ - 1) 65))
      ∧ mapsInfo (List.replicate BUFSIZ 65) ≠ some (List.replicate BUFSIZ 65) := by
  have hclean : ∀ n, (0 : UInt8) ∉ List.replicate n 65 := fun n h =>
    absurd (List.eq_of_mem_replicate h) (by decide)
  refine ⟨(maps_kept_iff _ (hclean _)).mpr ?_, fun h => ?_⟩
  · rw [List.length_replicate]
    decide
  · have hlt := (maps_kept_iff _ (hclean _)).mp h
    rw [List.length_replicate] at hlt
    exact lt_irrefl _ hlt

/-- A map that fills the buffer once: its end is stored at the index `BUFSIZ`. -/
theorem full_map_outside : (0 : UInt8) ∉ List.replicate BUFSIZ 65
    ∧ mapsInfo (List.replicate BUFSIZ 65) = none := by
  refine ⟨fun h => absurd (List.eq_of_mem_replicate h) (by decide), ?_⟩
  exact mapsInfo_eq_none List.length_replicate.ge

end ProcInfo

end OperatingSys
