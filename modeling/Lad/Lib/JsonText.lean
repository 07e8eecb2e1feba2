import Lad.Lib.JsonValue

/-!
# JSON texts written piece by piece

What a run of writes emitted, followed by any continuation, parses to what it denotes and then to
what the continuation parses to: of one value (`LeafText`), of members that may leave objects
open (`MembersRun`), and of array elements (`ElementsRun`).
-/

namespace Json

/-- `vt` is the text of the value `v`, read as `v` before anything that may follow a value. -/
def LeafText (vt : List UInt8) (v : Value) : Prop :=
  ∀ rest, Delimited rest → ValueText (vt ++ rest) (v, rest)

/-- The text `T`, written from the separator state `first` and followed by `k` closing braces,
continues an object with the members `M` before whatever continues it. -/
def MembersRun (first : Bool) (T : List UInt8) (k : Nat) (M : List (List UInt8 × Value)) :
    Prop :=
  ∀ C x, MembersText (first && T.isEmpty) C x →
    MembersText first (T ++ List.replicate k 0x7D ++ C) (M ++ x.1, x.2)

/-- The text `T`, written from the separator state `first`, continues an array with the
elements `V` before whatever continues it. -/
def ElementsRun (first : Bool) (T : List UInt8) (V : List Value) : Prop :=
  ∀ C x, ElementsText (first && T.isEmpty) C x → ElementsText first (T ++ C) (V ++ x.1, x.2)

@[simp] theorem sepText_true (spaced : Bool) : sepText true spaced = [] := rfl

theorem Delimited.nil : Delimited [] := fun _ _ h => nomatch h

/-- A whole text that is one value decodes to it. -/
theorem LeafText.decode {vt : List UInt8} {v : Value} (h : LeafText vt v) : decode vt = some v :=
  decode_of_valueText (by simpa using h [] Delimited.nil)

/-! ### What follows a member or an element -/

/-- After a member, the members of an object continue with whitespace, a comma or its `}`. -/
theorem MembersText.delimited {C : List UInt8} {x : List (List UInt8 × Value) × List UInt8}
    (h : MembersText false C x) : Delimited C := by
  intro c r hC
  subst hC
  by_cases hw : isWs c = true
  · exact Or.inl hw
  have hp := h (2 * (c :: r).length + 1) (by omega)
  rw [parseMembers, skipWs_cons (by simpa using hw)] at hp
  by_cases h1 : c = 0x7D
  · exact Or.inr (Or.inr (Or.inl h1))
  by_cases h2 : c = 0x2C
  · exact Or.inr (Or.inl h2)
  simp [h1, h2] at hp

/-- After an element, the elements of an array continue with whitespace, a comma or its `]`. -/
theorem ElementsText.delimited {C : List UInt8} {x : List Value × List UInt8}
    (h : ElementsText false C x) : Delimited C := by
  intro c r hC
  subst hC
  by_cases hw : isWs c = true
  · exact Or.inl hw
  have hp := h (2 * (c :: r).length + 1) (by omega)
  rw [parseElements, skipWs_cons (by simpa using hw)] at hp
  by_cases h1 : c = 0x5D
  · exact Or.inr (Or.inr (Or.inr h1))
  by_cases h2 : c = 0x2C
  · exact Or.inr (Or.inl h2)
  simp [h1, h2] at hp

/-! ### Runs of members -/

theorem MembersRun.nil (first : Bool) : MembersRun first [] 0 [] := by
  intro C x h
  simpa using h

/-- A member whose value is a whole text, then a run from after it. -/
theorem MembersRun.member (first spaced : Bool) {kb vt T : List UInt8} {key : List UInt8}
    {n : Nat} {v : Value} {M : List (List UInt8 × Value)}
    (hk : ∀ r, parseString (kb ++ 0x22 :: r) = some (key, r)) (hv : LeafText vt v)
    (h : MembersRun false T n M) :
    MembersRun first
      (sepText first spaced ++ 0x22 :: (kb ++ 0x22 :: (colonText spaced ++ (vt ++ T)))) n
      ((key, v) :: M) := by
  intro C x hC
  -- the whole text is not empty, so what follows it continues after a member
  have hC' : MembersText false C x := by
    cases first <;> simpa [sepText] using hC
  have hms := h C x (by simpa using hC')
  have hrun := MembersText.cons first spaced hk (hv _ hms.delimited) hms
  simpa using hrun

/-- A member whose value is an object left open: the run from inside it goes into it, and one
more brace closes it. -/
theorem MembersRun.open (first spaced : Bool) {kb T : List UInt8} {key : List UInt8} {n : Nat}
    {M : List (List UInt8 × Value)} (hk : ∀ r, parseString (kb ++ 0x22 :: r) = some (key, r))
    (h : MembersRun true T n M) :
    MembersRun first
      (sepText first spaced ++ 0x22 :: (kb ++ 0x22 :: (colonText spaced ++ 0x7B :: T))) (n + 1)
      [(key, .obj M)] := by
  intro C x hC
  have hC' : MembersText false C x := by
    cases first <;> simpa [sepText] using hC
  -- the members inside, up to the brace that closes the member's object
  have hin := h (0x7D :: C) ([], C) (by simpa using membersText_close _ C)
  have hobj : ValueText ((0x7B :: (T ++ List.replicate n 0x7D ++ [0x7D])) ++ C) (.obj M, C) := by
    simpa using valueText_obj hin
  have hrun := MembersText.cons first spaced hk hobj hC'
  simpa [List.replicate_succ'] using hrun

/-- A run that leaves no object open, then a run from where it left off. -/
theorem MembersRun.append {first : Bool} {T₁ T₂ : List UInt8} {k : Nat}
    {M₁ M₂ : List (List UInt8 × Value)} (h₁ : MembersRun first T₁ 0 M₁)
    (h₂ : MembersRun (first && T₁.isEmpty) T₂ k M₂) :
    MembersRun first (T₁ ++ T₂) k (M₁ ++ M₂) := by
  intro C x hC
  have hC₂ : MembersText ((first && T₁.isEmpty) && T₂.isEmpty) C x := by
    cases T₁ <;> simpa using hC
  have h₂C := h₂ C x hC₂
  simpa using h₁ _ _ h₂C

/-! ### Runs of elements -/

theorem ElementsRun.nil (first : Bool) : ElementsRun first [] [] := by
  intro C x h
  simpa using h

/-- An element that is a whole text, then a run from after it. -/
theorem ElementsRun.element (first spaced : Bool) {vt T : List UInt8} {v : Value}
    {V : List Value} (hne : vt ≠ []) (hv : LeafText vt v) (h : ElementsRun false T V) :
    ElementsRun first (sepText first spaced ++ (vt ++ T)) (v :: V) := by
  intro C x hC
  obtain ⟨c, vt', rfl⟩ := List.exists_cons_of_ne_nil hne
  have hC' : ElementsText false C x := by
    cases first <;> simpa [sepText] using hC
  have hes := h C x (by simpa using hC')
  have hrun := ElementsText.cons first spaced hne (hv _ hes.delimited) hes
  simpa using hrun

/-- A run of elements, then a run from where it left off. -/
theorem ElementsRun.append {first : Bool} {T₁ T₂ : List UInt8} {V₁ V₂ : List Value}
    (h₁ : ElementsRun first T₁ V₁) (h₂ : ElementsRun (first && T₁.isEmpty) T₂ V₂) :
    ElementsRun first (T₁ ++ T₂) (V₁ ++ V₂) := by
  intro C x hC
  have hC₂ : ElementsText ((first && T₁.isEmpty) && T₂.isEmpty) C x := by
    cases T₁ <;> simpa using hC
  have h₂C := h₂ C x hC₂
  simpa using h₁ _ _ h₂C

/-! ### Objects and arrays as values -/

/-- An object whose members a run wrote, closed with the braces of the objects the run left
open and its own. -/
theorem LeafText.obj {T : List UInt8} {n : Nat} {M : List (List UInt8 × Value)}
    (h : MembersRun true T n M) : LeafText (0x7B :: (T ++ List.replicate (n + 1) 0x7D)) (.obj M) := by
  intro rest _
  have hin := h (0x7D :: rest) ([], rest) (by simpa using membersText_close _ rest)
  simpa [List.replicate_succ'] using valueText_obj hin

/-- An array whose elements a run wrote. -/
theorem LeafText.arr {T : List UInt8} {V : List Value} (h : ElementsRun true T V) :
    LeafText (0x5B :: (T ++ [0x5D])) (.arr V) := by
  intro rest _
  have hin := h (0x5D :: rest) ([], rest) (by simpa using elementsText_close _ rest)
  simpa using valueText_arr hin

end Json
