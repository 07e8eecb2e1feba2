import Lad.Ladcore.Encoder
import Lad.Lib.LastIndex

/-!
# Trimmed caller paths

`EntryCaller.TrimmedPath` keeps what follows the second-to-last `/` of the file, and a file
with fewer separators in full. `trimmedPath_spec` describes both branches by how the file splits
at its separators, on the last-index library.
-/

namespace Go

/-- `strings.LastIndexByte(s, c)`: the index of the last `c` in `s`; `none` stands for `-1`. -/
def strings.LastIndexByte (s : List UInt8) (c : UInt8) : Option Nat := s.lastIdxOf? c

end Go

namespace Lad

open Go

def EntryCaller.trimmedPath (ec : EntryCaller) : List UInt8 :=
  if !ec.defined then ascii "undefined"
  else
    match strings.LastIndexByte ec.file 0x2F with
    | none => ec.fullPath
    | some idx =>
      -- the penultimate separator is looked for in what precedes the last one
      match strings.LastIndexByte (ec.file.take idx) 0x2F with
      | none => ec.fullPath
      | some idx => ec.file.drop (idx + 1) ++ ascii ":" ++ Json.decimal ec.line

/-- `ShortCallerEncoder`: `caller.TrimmedPath()`, as a string. -/
def ShortCallerEncoder (caller : EntryCaller) : List PrimCall :=
  [.append (.string caller.trimmedPath)]

namespace EntryCaller

section Separators

variable {ec : EntryCaller}

/-- The last separator of `pre/dir/base`, with no `/` in `base`, ends `pre/dir`. -/
theorem LastIndexByte_of_eq {pre dir base : List UInt8}
    (hbase : (0x2F : UInt8) ∉ base) :
    strings.LastIndexByte (pre ++ 0x2F :: dir ++ 0x2F :: base) 0x2F =
      some (pre ++ 0x2F :: dir).length :=
  List.lastIdxOf?_append_cons (pre ++ 0x2F :: dir) base hbase

/-- With two separators, `pre/dir/base`, the trimmed path is `dir/base:line`. -/
theorem trimmedPath_of_eq (hd : ec.defined) {pre dir base : List UInt8}
    (hf : ec.file = pre ++ 0x2F :: dir ++ 0x2F :: base)
    (hdir : (0x2F : UInt8) ∉ dir) (hbase : (0x2F : UInt8) ∉ base) :
    ec.trimmedPath = dir ++ 0x2F :: base ++ ascii ":" ++ Json.decimal ec.line := by
  have hlast := @LastIndexByte_of_eq pre dir base hbase
  have htake : ec.file.take (pre ++ 0x2F :: dir).length = pre ++ 0x2F :: dir := by
    rw [hf, List.take_left]
  have hpen : strings.LastIndexByte (pre ++ 0x2F :: dir) 0x2F = some pre.length :=
    List.lastIdxOf?_append_cons pre dir hdir
  have hdrop : ec.file.drop (pre.length + 1) = dir ++ 0x2F :: base := by
    simp [hf, List.drop_append]
  rw [trimmedPath, if_neg (by simp [hd]), ← hf] at *
  rw [hlast]
  dsimp only
  rw [htake, hpen]
  dsimp only
  rw [hdrop]

theorem trimmedPath_of_not_defined (hd : ¬ec.defined) : ec.trimmedPath = ascii "undefined" := by
  simp [trimmedPath, hd]

/-- An undefined caller is written as `undefined` by both `TrimmedPath` and `FullPath`. -/
theorem trimmedPath_eq_fullPath_of_not_defined (hd : ¬ec.defined) :
    ec.trimmedPath = ec.fullPath := by
  rw [trimmedPath_of_not_defined hd, fullPath, if_neg hd]

/-- With at most one separator the trimmed path is the full path. -/
theorem trimmedPath_of_count_le_one (h : ec.file.count 0x2F ≤ 1) :
    ec.trimmedPath = ec.fullPath := by
  by_cases hd : ec.defined
  · -- two separators would be found, which the count rules out
    unfold trimmedPath
    rw [if_neg (by simp [hd])]
    cases hlast : strings.LastIndexByte ec.file 0x2F with
    | none => rfl
    | some idx =>
      dsimp only
      cases hpen : strings.LastIndexByte (ec.file.take idx) 0x2F with
      | none => rfl
      | some idx' =>
        obtain ⟨hsplit, -⟩ := List.lastIdxOf?_split hlast
        have hmem : (0x2F : UInt8) ∈ ec.file.take idx := List.mem_of_lastIdxOf?_eq_some hpen
        have hcount : 2 ≤ ec.file.count 0x2F := by
          rw [hsplit, List.count_append, List.count_cons_self]
          have := List.count_pos_iff.mpr hmem
          omega
        omega
  · exact trimmedPath_eq_fullPath_of_not_defined hd

/-- With two separators or more, the file splits at its last two and the trimmed path keeps what
follows the first of them. -/
theorem trimmedPath_of_two_le (hd : ec.defined) (h : 2 ≤ ec.file.count 0x2F) :
    ∃ pre dir base, ec.file = pre ++ 0x2F :: dir ++ 0x2F :: base ∧
      (0x2F : UInt8) ∉ dir ∧ (0x2F : UInt8) ∉ base ∧
      ec.trimmedPath = dir ++ 0x2F :: base ++ ascii ":" ++ Json.decimal ec.line := by
  obtain ⟨pre, dir, base, hf, hdir, hbase⟩ := List.exists_eq_split_last_two h
  exact ⟨pre, dir, base, hf, hdir, hbase, trimmedPath_of_eq hd hf hdir hbase⟩

/-- `TrimmedPath` of a defined caller: the full path when the file has at most one `/`, and
otherwise `dir/base:line` for the file split at its last two separators. -/
theorem trimmedPath_spec (hd : ec.defined) :
    (ec.file.count 0x2F ≤ 1 ∧ ec.trimmedPath = ec.fullPath) ∨
      ∃ pre dir base, ec.file = pre ++ 0x2F :: dir ++ 0x2F :: base ∧
        (0x2F : UInt8) ∉ dir ∧ (0x2F : UInt8) ∉ base ∧
        ec.trimmedPath = dir ++ 0x2F :: base ++ ascii ":" ++ Json.decimal ec.line := by
  rcases le_or_gt (ec.file.count 0x2F) 1 with h | h
  · exact Or.inl ⟨h, trimmedPath_of_count_le_one h⟩
  · exact Or.inr (trimmedPath_of_two_le hd h)

theorem trimmedPath_spec_logger :
    let ec : EntryCaller := ⟨true, 0, ascii "lad/ladcore/entry.go", 42, []⟩
    (ec.file.count 0x2F ≤ 1 ∧ ec.trimmedPath = ec.fullPath) ∨
      ∃ pre dir base, ec.file = pre ++ 0x2F :: dir ++ 0x2F :: base ∧
        (0x2F : UInt8) ∉ dir ∧ (0x2F : UInt8) ∉ base ∧
        ec.trimmedPath = dir ++ 0x2F :: base ++ ascii ":" ++ Json.decimal ec.line :=
  trimmedPath_spec rfl

theorem count_sep_decimal (i : Int) : (Json.decimal i).count 0x2F = 0 :=
  List.count_eq_zero.mpr fun h => absurd (Json.isNumByte_of_mem_decimal h) (by decide)

/-- The trimmed path only drops a prefix of the full path. -/
theorem trimmedPath_suffix (ec : EntryCaller) : ec.trimmedPath <:+ ec.fullPath := by
  by_cases hd : ec.defined
  · rcases le_or_gt (ec.file.count 0x2F) 1 with h | h
    · exact trimmedPath_of_count_le_one h ▸ List.suffix_refl _
    · obtain ⟨pre, dir, base, hf, -, -, ht⟩ := trimmedPath_of_two_le hd h
      rw [ht, fullPath, if_pos hd, hf, List.suffix_append_self_iff, List.suffix_append_self_iff]
      exact ⟨pre ++ [0x2F], by simp⟩
  · exact trimmedPath_eq_fullPath_of_not_defined hd ▸ List.suffix_refl _

/-- What `ShortCallerEncoder` writes keeps at most the leaf directory: one `/` at most. -/
theorem count_sep_trimmedPath_le_one (ec : EntryCaller) : ec.trimmedPath.count 0x2F ≤ 1 := by
  have hcolon : (ascii ":").count 0x2F = 0 := by decide
  by_cases hd : ec.defined
  · rcases le_or_gt (ec.file.count 0x2F) 1 with h | h
    · rw [trimmedPath_of_count_le_one h, fullPath, if_pos hd]
      simp only [List.count_append, hcolon, count_sep_decimal]
      omega
    · obtain ⟨pre, dir, base, -, hdir, hbase, ht⟩ := trimmedPath_of_two_le hd h
      rw [ht]
      simp only [List.count_append, List.count_cons_self, List.count_eq_zero.mpr hdir,
        List.count_eq_zero.mpr hbase, hcolon, count_sep_decimal]
      omega
  · rw [trimmedPath_of_not_defined hd]
    decide

end Separators

end EntryCaller

/-- `ShortCallerEncoder` writes one string, which drops a prefix of the full path and keeps at
most one `/`. -/
theorem ShortCallerEncoder_spec (ec : EntryCaller) :
    ∃ s, ShortCallerEncoder ec = [.append (.string s)] ∧ s <:+ ec.fullPath ∧ s.count 0x2F ≤ 1 :=
  ⟨ec.trimmedPath, rfl, ec.trimmedPath_suffix, ec.count_sep_trimmedPath_le_one⟩

end Lad
