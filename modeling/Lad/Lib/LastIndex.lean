import Mathlib.Data.List.Basic

/-!
# The last index of an element

`lastIdxOf? l a` scans from the end, as a loop from `len(l) - 1` down does; the list splits at
its last `a` (`lastIdxOf?_split`), and a list with two `a`s at its last two
(`exists_eq_split_last_two`).
-/

namespace List

variable {α : Type*} [DecidableEq α]

/-- The scan of `l` for `a`, from the index below `i` down. -/
def lastIdxFrom (l : List α) (a : α) : Nat → Option Nat
  | 0 => none
  | i + 1 => if l[i]? = some a then some i else l.lastIdxFrom a i

/-- The index of the last `a` in `l`. -/
def lastIdxOf? (l : List α) (a : α) : Option Nat := l.lastIdxFrom a l.length

/-- What the scan finds holds `a`, and nothing between it and where the scan began does. -/
theorem lastIdxFrom_eq_some {l : List α} {a : α} :
    ∀ {n i : Nat}, l.lastIdxFrom a n = some i →
      i < n ∧ l[i]? = some a ∧ ∀ j, i < j → j < n → l[j]? ≠ some a
  | 0, _, h => by simp [lastIdxFrom] at h
  | n + 1, i, h => by
    rw [lastIdxFrom] at h
    by_cases hn : l[n]? = some a
    · rw [if_pos hn, Option.some.injEq] at h
      subst h
      exact ⟨by omega, hn, fun j hij hjn => absurd hjn (by omega)⟩
    · rw [if_neg hn] at h
      obtain ⟨hin, hi, habove⟩ := lastIdxFrom_eq_some h
      refine ⟨by omega, hi, fun j hij hjn => ?_⟩
      -- past the indices scanned below `n`, only `n` itself is left
      rcases Nat.lt_or_ge j n with hj | hj
      · exact habove j hij hj
      · rwa [show j = n by omega]

/-- A scan that finds nothing passed no `a`. -/
theorem lastIdxFrom_eq_none {l : List α} {a : α} :
    ∀ {n : Nat}, l.lastIdxFrom a n = none → ∀ j < n, l[j]? ≠ some a
  | 0, _ => fun j hj => absurd hj (Nat.not_lt_zero j)
  | n + 1, h => by
    rw [lastIdxFrom] at h
    by_cases hn : l[n]? = some a
    · rw [if_pos hn] at h
      cases h
    · rw [if_neg hn] at h
      intro j hj
      rcases Nat.lt_or_ge j n with hj' | hj'
      · exact lastIdxFrom_eq_none h j hj'
      · rwa [show j = n by omega]

/-- The list split at the last `a`: what comes before, `a`, and a rest with no `a`. -/
theorem lastIdxOf?_split {l : List α} {a : α} {i : Nat} (h : l.lastIdxOf? a = some i) :
    l = l.take i ++ a :: l.drop (i + 1) ∧ a ∉ l.drop (i + 1) := by
  obtain ⟨hin, hi, habove⟩ := lastIdxFrom_eq_some h
  refine ⟨?_, fun hmem => ?_⟩
  · have hget : l[i] = a := by simpa [List.getElem?_eq_getElem hin] using hi
    conv_lhs => rw [← List.take_append_drop i l, List.drop_eq_getElem_cons hin, hget]
  · obtain ⟨k, hk, hka⟩ := List.getElem_of_mem hmem
    have hk' : i + 1 + k < l.length := by simp at hk; omega
    refine habove (i + 1 + k) (by omega) hk' ?_
    rw [← hka, List.getElem_drop, List.getElem?_eq_getElem hk']

/-- The last `a` of `pre ++ a :: post`, with no `a` in `post`, is at the length of `pre`. -/
theorem lastIdxOf?_append_cons (pre post : List α) {a : α} (h : a ∉ post) :
    (pre ++ a :: post).lastIdxOf? a = some pre.length := by
  cases hl : (pre ++ a :: post).lastIdxOf? a with
  | none =>
    have hnone := lastIdxFrom_eq_none hl pre.length (by simp)
    simp at hnone
  | some i =>
    obtain ⟨hin, hi, habove⟩ := lastIdxFrom_eq_some hl
    -- an index past `pre` would hold an `a` of `post`, and one before would leave `a` above it
    rcases Nat.lt_trichotomy i pre.length with hlt | heq | hgt
    · exact absurd (by simp) (habove pre.length hlt (by simp))
    · rw [heq]
    · have hk : i - pre.length - 1 < post.length := by simp at hin; omega
      have hpost : post[i - pre.length - 1]? = some a := by
        rw [← hi, List.getElem?_append_right (by omega)]
        rw [show i - pre.length = (i - pre.length - 1) + 1 by omega, List.getElem?_cons_succ,
          Nat.add_sub_cancel]
      exact absurd (List.mem_of_getElem? hpost) h

theorem mem_of_lastIdxOf?_eq_some {l : List α} {a : α} {i : Nat} (h : l.lastIdxOf? a = some i) :
    a ∈ l :=
  List.mem_of_getElem? (lastIdxFrom_eq_some h).2.1

theorem lastIdxOf?_eq_none_iff {l : List α} {a : α} : l.lastIdxOf? a = none ↔ a ∉ l := by
  constructor
  · intro h hmem
    obtain ⟨k, hk, hka⟩ := List.getElem_of_mem hmem
    exact lastIdxFrom_eq_none h k hk (by rw [List.getElem?_eq_getElem hk, hka])
  · intro h
    cases hl : l.lastIdxOf? a with
    | none => rfl
    | some i => exact absurd (mem_of_lastIdxOf?_eq_some hl) h

/-- A list that holds `a` splits at its last `a`. -/
theorem exists_eq_append_cons_not_mem {l : List α} {a : α} (h : a ∈ l) :
    ∃ pre post, l = pre ++ a :: post ∧ a ∉ post := by
  cases hl : l.lastIdxOf? a with
  | none => exact absurd h (lastIdxOf?_eq_none_iff.mp hl)
  | some i => exact ⟨_, _, lastIdxOf?_split hl⟩

/-- A list that holds two `a`s splits at its last two. -/
theorem exists_eq_split_last_two {l : List α} {a : α} (h : 2 ≤ l.count a) :
    ∃ pre mid post, l = pre ++ a :: mid ++ a :: post ∧ a ∉ mid ∧ a ∉ post := by
  obtain ⟨s, post, hl, hpost⟩ := exists_eq_append_cons_not_mem (count_pos_iff.mp (show 0 < l.count a by omega))
  -- the last `a` takes one from the count and `post` none, so `s` keeps one
  have hs : 0 < s.count a := by
    have hcount : l.count a = s.count a + 1 := by
      rw [hl, count_append, count_cons_self, count_eq_zero.mpr hpost]
    omega
  obtain ⟨pre, mid, hs', hmid⟩ := exists_eq_append_cons_not_mem (count_pos_iff.mp hs)
  exact ⟨pre, mid, post, by rw [hl, hs'], hmid, hpost⟩

end List
