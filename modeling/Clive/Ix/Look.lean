import Mathlib.Data.List.Basic

/-!
# Looking for text in an editor

A middle click with the third button on some text of an `ix` window looks for the text in the
window, after the selection (`lookText`). `findText` scans the positions from a start for one
where `hasText` sees the runes; `lookText` searches from the start it is given, then, when that
fails and the start was not the beginning, from the beginning, and selects what it found. The
search reads the window through `Len` and `Getc` only.

`hasText` checks that the start is inside the text but not that the runes end inside it: what
`Getc` reads past the end decides a match there. `Occurs` says what a match is, with no
assumption on `Getc`.

## Main results

* `hasText_iff`: `hasText` holds exactly where the runes occur;
* `findText_spec`: `findText` gives the first position at or after its start where the runes
  occur, or `-1` when there is none;
* `lookText_spec`: the search wraps around: `lookText` selects the first occurrence at or after
  its start, or else the first one before it, or leaves the selection when there is none.
-/

namespace Ix

/-- What the search reads of an editor's window (`ed.win`). -/
structure Win where
  /-- `win.Len()`: the number of runes in the text. -/
  len : Nat
  /-- `win.Getc(off)`: the rune at `off`. -/
  getc : Int → Char

/-- `Dot`: the selection of an editor, from `P0` to `P1`. -/
structure Dot where
  /-- Where the selection starts. -/
  P0 : Int
  /-- Where the selection ends. -/
  P1 : Int
  deriving DecidableEq, Repr

/-! ### The search -/

/-- The loop of `hasText`: rune `i` of `rs` is the one at `p + i`, for each `i`. -/
def runesAt (w : Win) : List Char → Int → Bool
  | [], _ => true
  | r :: rs, p => w.getc p == r && runesAt w rs (p + 1)

/-- `ed.hasText(rs, p0)`. -/
def hasText (w : Win) (rs : List Char) (p0 : Int) : Bool :=
  if p0 < 0 ∨ p0 ≥ w.len then false else runesAt w rs p0

/-- The loop of `findText` from `p0`, run at most `fuel` times. -/
def findFrom (w : Win) (rs : List Char) : Nat → Int → Int
  | 0, _ => -1
  | fuel + 1, p0 =>
    if p0 < w.len then (if hasText w rs p0 then p0 else findFrom w rs fuel (p0 + 1)) else -1

/-- `ed.findText(rs, p0)`: its loop runs at most `Len - p0` times. -/
def findText (w : Win) (rs : List Char) (p0 : Int) : Int :=
  findFrom w rs (w.len - p0).toNat p0

/-- `ed.lookText(what, p0)`: the selection `dot` becomes after the search. -/
def lookText (w : Win) (dot : Dot) (what : String) (p0 : Int) : Dot :=
  let rs := what.data
  let pos := findText w rs p0
  let pos := if pos < 0 ∧ p0 > 0 then findText w rs 0 else pos
  if pos ≥ 0 then ⟨pos, pos + rs.length⟩ else dot

/-! ### Occurrences -/

/-- The runes `rs` occur in the text at `p`: `p` is a position of the text, and rune `i` of `rs`
is what `Getc` reads at `p + i`. -/
def Occurs (w : Win) (rs : List Char) (p : Int) : Prop :=
  0 ≤ p ∧ p < w.len ∧ ∀ (i : Nat) (h : i < rs.length), w.getc (p + i) = rs[i]

theorem runesAt_iff (w : Win) :
    ∀ (rs : List Char) (p : Int),
      runesAt w rs p = true ↔ ∀ (i : Nat) (h : i < rs.length), w.getc (p + i) = rs[i]
  | [], p => by simp [runesAt]
  | r :: rs, p => by
    have hshift : ∀ i : Nat, p + 1 + (i : Int) = p + ((i + 1 : Nat) : Int) := fun i => by omega
    rw [runesAt, Bool.and_eq_true, beq_iff_eq, runesAt_iff w rs (p + 1)]
    constructor
    · rintro ⟨h₀, h⟩ (_ | i) hi
      · simpa using h₀
      · simpa [hshift] using h i (by simpa using hi)
    · intro h
      refine ⟨by simpa using h 0 (by simp), fun i hi => ?_⟩
      simpa [hshift] using h (i + 1) (by simpa using hi)

/-- **`hasText` holds exactly where the runes occur.** -/
theorem hasText_iff (w : Win) (rs : List Char) (p : Int) :
    hasText w rs p = true ↔ Occurs w rs p := by
  rw [hasText, Occurs, ← runesAt_iff]
  split_ifs with h
  · simp only [Bool.false_eq_true, false_iff]
    rintro ⟨h₀, h₁, -⟩
    omega
  · exact ⟨fun h' => ⟨by omega, by omega, h'⟩, fun h' => h'.2.2⟩

/-! ### The search finds the first occurrence -/

/-- `p` is the first position from `lo` on where the runes occur. -/
def FirstFrom (w : Win) (rs : List Char) (lo p : Int) : Prop :=
  lo ≤ p ∧ Occurs w rs p ∧ ∀ q, lo ≤ q → q < p → ¬Occurs w rs q

/-- The loop of `findText`, given fuel for every position left. -/
theorem findFrom_spec (w : Win) (rs : List Char) :
    ∀ (fuel : Nat) (p0 : Int), (w.len - p0).toNat = fuel →
      (findFrom w rs fuel p0 = -1 ∧ ∀ q, p0 ≤ q → ¬Occurs w rs q) ∨
        FirstFrom w rs p0 (findFrom w rs fuel p0)
  | 0, p0, hf => .inl ⟨rfl, fun q hq ho => by have := ho.2.1; omega⟩
  | fuel + 1, p0, hf => by
    have hlt : p0 < w.len := by omega
    rw [findFrom, if_pos hlt]
    by_cases hp : hasText w rs p0
    · rw [if_pos hp]
      exact .inr ⟨Int.le_refl p0, (hasText_iff w rs p0).mp hp,
        fun q h₁ h₂ => absurd h₂ (by omega)⟩
    · rw [if_neg hp]
      have hp' : ¬Occurs w rs p0 := fun h => hp ((hasText_iff w rs p0).mpr h)
      rcases findFrom_spec w rs fuel (p0 + 1) (by omega) with ⟨hr, hno⟩ | ⟨h₁, hocc, hmin⟩
      · refine .inl ⟨hr, fun q hq => ?_⟩
        by_cases hq₀ : q = p0
        · exact hq₀ ▸ hp'
        · exact hno q (by omega)
      · refine .inr ⟨by omega, hocc, fun q hq hqr => ?_⟩
        by_cases hq₀ : q = p0
        · exact hq₀ ▸ hp'
        · exact hmin q (by omega) hqr

/-- **`findText` finds the first occurrence** at or after its start, and gives `-1` when the
runes occur nowhere from there on. -/
theorem findText_spec (w : Win) (rs : List Char) (p0 : Int) :
    (findText w rs p0 = -1 ∧ ∀ q, p0 ≤ q → ¬Occurs w rs q) ∨
      FirstFrom w rs p0 (findText w rs p0) :=
  findFrom_spec w rs _ p0 rfl

/-- **The search wraps around.** `lookText` selects the first occurrence of the text at or after
its start; when there is none, the first one before the start; and when the text occurs
nowhere, it leaves the selection as it was. -/
theorem lookText_spec (w : Win) (dot : Dot) (what : String) (p0 : Int) :
    (∃ p, FirstFrom w what.data p0 p ∧
        lookText w dot what p0 = ⟨p, p + what.data.length⟩) ∨
      ((∀ q, p0 ≤ q → ¬Occurs w what.data q) ∧
        ∃ p, p < p0 ∧ FirstFrom w what.data 0 p ∧
          lookText w dot what p0 = ⟨p, p + what.data.length⟩) ∨
      ((∀ q, ¬Occurs w what.data q) ∧ lookText w dot what p0 = dot) := by
  rcases findText_spec w what.data p0 with ⟨h₁, hno⟩ | hfirst
  · by_cases hp0 : p0 > 0
    · rcases findText_spec w what.data 0 with ⟨h₂, hno₀⟩ | hfirst₀
      · refine .inr (.inr ⟨fun q hq => ?_, by simp [lookText, h₁, h₂, hp0]⟩)
        exact hno₀ q hq.1 hq
      · refine .inr (.inl ⟨hno, _, ?_, hfirst₀, ?_⟩)
        · by_contra hge
          exact hno _ (by omega) hfirst₀.2.1
        · have h0 := hfirst₀.2.1.1
          simp [lookText, h₁, hp0, h0]
    · refine .inr (.inr ⟨fun q hq => ?_, by simp [lookText, h₁, hp0]⟩)
      exact hno q (by have := hq.1; omega) hq
  · have h0 := hfirst.2.1.1
    refine .inl ⟨_, hfirst, ?_⟩
    simp [lookText, h0, Int.not_lt.mpr h0]

/-- In `abcab`, `ab` after position 2 is at 3, and after position 4 it wraps around to 0. -/
example :
    lookText ⟨5, fun i => "abcab".data.getD i.toNat ' '⟩ ⟨0, 0⟩ "ab" 2 = ⟨3, 5⟩ ∧
      lookText ⟨5, fun i => "abcab".data.getD i.toNat ' '⟩ ⟨0, 0⟩ "ab" 4 = ⟨0, 2⟩ := by
  decide

end Ix
