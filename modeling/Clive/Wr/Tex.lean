import Mathlib.Data.List.Basic

/-!
# Escaping text for TeX

`wr`'s TeX writer puts a backslash before each of the characters TeX treats specially,
`&_$\%{}#^` (`lspecial`). For most of them that is how LaTeX prints the character itself; `\\`
and `\^` are a line break and an accent instead. The characters `\001` and `\002`
switch the escaping off and back on, and are dropped. `texStep` is one iteration of
`escTex`'s loop; the state is the output so far and the `noesc` flag.

## Main results

* `foldl_texStep`: with escaping on, over text without the switching characters, the loop
  appends the text with a backslash before each special character;
* `escTex_roundTrip`: for such text every special character of `escTex(s)` is escaped
  (`Escaped`), and taking the escapes out gives `s` back.
-/

namespace Wr

/-! ### The escaper -/

/-- `lspecial`: the characters `escTex` escapes. -/
def lspecial : List Char := "&_$\\%\x7b\x7d#^".data

/-- One iteration of `escTex`'s loop on the rune `r`: the output and `noesc`. -/
def texStep (st : List Char × Bool) (r : Char) : List Char × Bool :=
  if r = '\x01' then (st.1, true)
  else if r = '\x02' then (st.1, false)
  else if st.2 then (st.1 ++ [r], st.2)
  else if r ∈ lspecial then (st.1 ++ ['\\', r], st.2)
  else (st.1 ++ [r], st.2)

/-- `escTex`: `s` escaped for TeX. -/
def escTex (s : String) : String :=
  ⟨(s.data.foldl texStep ([], false)).1⟩

example : escTex "50% of $x\x01$y$\x02_" = "50\\% of \\$x$y$\\_" := by decide

/-- A character as `escTex` writes it while escaping is on. -/
def escChar (r : Char) : List Char :=
  if r ∈ lspecial then ['\\', r] else [r]

/-- The loop with escaping on, over text without the switching characters, appends the text
escaped character by character. -/
theorem foldl_texStep :
    ∀ (s : List Char) (ns : List Char), '\x01' ∉ s → '\x02' ∉ s →
      s.foldl texStep (ns, false) = (ns ++ s.flatMap escChar, false)
  | [], ns, _, _ => by simp
  | r :: s, ns, h₁, h₂ => by
    simp only [List.mem_cons, not_or] at h₁ h₂
    have hstep : texStep (ns, false) r = (ns ++ escChar r, false) := by
      simp only [texStep, escChar, if_neg (Ne.symm h₁.1), if_neg (Ne.symm h₂.1),
        Bool.false_eq_true, if_false]
      split_ifs <;> rfl
    rw [List.foldl_cons, hstep, foldl_texStep s _ h₁.2 h₂.2, List.flatMap_cons,
      List.append_assoc]

/-! ### Reading the output as TeX -/

/-- Text in which every special character is escaped: read from the left, a backslash escapes
the special character after it, and no other special character stands alone. -/
def Escaped : List Char → Prop
  | [] => True
  | [c] => c ∉ lspecial
  | c :: d :: rest =>
    if c = '\\' then d ∈ lspecial ∧ Escaped rest else c ∉ lspecial ∧ Escaped (d :: rest)

/-- The escapes taken out: a backslash before a special character is dropped. -/
def unescTex : List Char → List Char
  | [] => []
  | [c] => [c]
  | c :: d :: rest =>
    if c = '\\' ∧ d ∈ lspecial then d :: unescTex rest else c :: unescTex (d :: rest)

theorem escaped_escChar_append (r : Char) {rest : List Char} (h : Escaped rest) :
    Escaped (escChar r ++ rest) ∧ unescTex (escChar r ++ rest) = r :: unescTex rest := by
  unfold escChar
  by_cases hr : r ∈ lspecial
  · simp [hr, h, Escaped, unescTex]
  · have hb : r ≠ '\\' := fun e => hr (e ▸ by decide)
    rw [if_neg hr, List.singleton_append]
    rcases rest with _ | ⟨d, rest⟩
    · exact ⟨hr, rfl⟩
    · exact ⟨by simp only [Escaped, if_neg hb]; exact ⟨hr, h⟩,
        by simp only [unescTex, hb, false_and, if_false]⟩

/-- **Every special character is escaped, and nothing is lost.** For text without the switching
characters, `escTex(s)` read from the left has each special character escaped, and taking the
escapes out gives `s`. -/
theorem escTex_roundTrip (s : String) (h₁ : '\x01' ∉ s.data) (h₂ : '\x02' ∉ s.data) :
    Escaped (escTex s).data ∧ unescTex (escTex s).data = s.data := by
  have hfold := foldl_texStep s.data [] h₁ h₂
  simp only [escTex, hfold, List.nil_append]
  clear hfold h₁ h₂
  induction s.data with
  | nil => exact ⟨trivial, rfl⟩
  | cons r s ih =>
    rw [List.flatMap_cons]
    obtain ⟨he, hu⟩ := escaped_escChar_append r ih.1
    exact ⟨he, by rw [hu, ih.2]⟩

theorem escTex_roundTrip_dollar :
    Escaped (escTex "$x$").data ∧ unescTex (escTex "$x$").data = "$x$".data :=
  escTex_roundTrip "$x$" (by decide) (by decide)

end Wr
