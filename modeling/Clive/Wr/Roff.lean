import Mathlib.Data.List.Basic
import Mathlib.Data.Nat.Digits

/-!
# Escaping text for roff

`wr` writes documents as troff input, and `escRoff` makes document text safe to put there. A
`.` or `'` that starts a line, where troff reads a request, gets `\&` put before it; a backslash
becomes `\e`; `©` becomes `(c)`; `¯` and `¸` become a backslash; and every other rune outside
seven bits becomes groff's `\[uXXXX]`. The runes `cmdEsc[0]` and `cmdNoEsc[0]` switch the
escaping off and back on, and are dropped.

The loop keeps two flags: `atnl`, whether the next rune starts a line (spaces and tabs leave it
set, and so do the escapes that skip its update), and `noesc`. `escStep` is one iteration and
`escRoff` the loop over the runes.

## Main results

* `EscInv.step`: while escaping is on, whenever the output is empty or ends a line, `atnl` is
  set, and no line of the output starts with `.` or `'`; each iteration keeps this;
* `escRoff_line_starts`: for text where neither switching rune occurs, no line of `escRoff(s)`
  starts with a troff control character. With escaping off, runes are copied as they are, so
  the hypothesis is needed.
-/

namespace Wr

/-! ### The escaper -/

/-- The apostrophe, troff's other control character. -/
def apostrophe : Char := '\x27'

/-- `fmt.Sprintf("%04X", n)`: `n` in upper-case hexadecimal, padded with zeros to four
digits. -/
def hex04 (n : Nat) : List Char :=
  let ds := (Nat.toDigits 16 n).map Char.toUpper
  List.replicate (4 - ds.length) '0' ++ ds

/-- The state of `escRoff`'s loop. -/
structure EscState where
  /-- The output so far. -/
  ns : List Char
  /-- The next rune starts a line. -/
  atnl : Bool
  /-- Escaping is off. -/
  noesc : Bool
  deriving DecidableEq, Repr

/-- The code after `escRoff`'s switch: append the rune, and track whether the next one starts a
line. -/
def EscState.emit (st : EscState) (r : Char) : EscState :=
  { st with
    ns := st.ns ++ [r]
    atnl := if r = '\n' then true else if r ≠ ' ' ∧ r ≠ '\t' then false else st.atnl }

/-- One iteration of `escRoff`'s loop on the rune `r`. `resc` and `rnoesc` are
`rune(cmdEsc[0])` and `rune(cmdNoEsc[0])`. -/
def escStep (resc rnoesc : Char) (st : EscState) (r : Char) : EscState :=
  if r = resc then { st with noesc := true }
  else if r = rnoesc then { st with noesc := false }
  else if st.noesc then st.emit r
  else if st.atnl ∧ r = '.' then { st with ns := st.ns ++ ['\\', '&', '.'], atnl := false }
  else if st.atnl ∧ r = apostrophe then
    { st with ns := st.ns ++ ['\\', '&', apostrophe], atnl := false }
  else if r = '\\' then { st with ns := st.ns ++ ['\\', 'e'] }
  else if r = '¯' ∨ r = '¸' then st.emit '\\'
  else if r = '©' then { st with ns := st.ns ++ ['(', 'c', ')'] }
  -- groff escapes for all codepoints not in 7 bits
  else if r.toNat > 0x7F then { st with ns := st.ns ++ ['\\', '[', 'u'] ++ hex04 r.toNat ++ [']'] }
  else st.emit r

/-- `escRoff`: `s` escaped for roff, with `resc = rune(cmdEsc[0])` and
`rnoesc = rune(cmdNoEsc[0])`. -/
def escRoff (resc rnoesc : Char) (s : String) : String :=
  ⟨(s.data.foldl (escStep resc rnoesc) ⟨[], true, false⟩).ns⟩

example : escRoff '\x01' '\x02' ".TH\n  'x\\y ©" = "\\&.TH\n  \\&\x27x\\ey (c)" := by decide

/-- With escaping off, text is copied as it is: after `cmdEsc[0]` a line can start a request. -/
example : escRoff '\x01' '\x02' "\x01.so x" = ".so x" := by decide

/-! ### Line starts -/

/-- Every character of `o` that starts a line is neither `.` nor `'`; the first one starts a
line when `b` holds, and every one after a newline does. -/
def SafeFrom : Bool → List Char → Prop
  | _, [] => True
  | b, c :: o => (b = true → c ≠ '.' ∧ c ≠ apostrophe) ∧ SafeFrom (c = '\n') o

/-- Whether what follows `o` starts a line: `o` ends with a newline, or is empty and `b`. -/
def endsLine (b : Bool) (o : List Char) : Bool :=
  match o.getLast? with
  | none => b
  | some c => c = '\n'

@[simp] theorem SafeFrom_nil (b : Bool) : SafeFrom b [] := trivial

theorem SafeFrom_cons {b : Bool} {c : Char} {o : List Char} :
    SafeFrom b (c :: o) ↔ (b = true → c ≠ '.' ∧ c ≠ apostrophe) ∧ SafeFrom (c = '\n') o :=
  Iff.rfl

theorem endsLine_cons (b : Bool) (c : Char) (o : List Char) :
    endsLine b (c :: o) = endsLine (c = '\n') o := by
  cases o <;> simp [endsLine, List.getLast?_cons]

theorem SafeFrom_append {b : Bool} {xs ys : List Char} :
    SafeFrom b (xs ++ ys) ↔ SafeFrom b xs ∧ SafeFrom (endsLine b xs) ys := by
  induction xs generalizing b with
  | nil => simp [endsLine]
  | cons c xs ih => simp [SafeFrom_cons, ih, endsLine_cons, and_assoc]

theorem endsLine_append {b : Bool} {xs ys : List Char} (hys : ys ≠ []) :
    endsLine b (xs ++ ys) = endsLine false ys := by
  simp [endsLine, List.getLast?_append, List.getLast?_eq_getLast ys hys]

/-- A piece without a newline puts no character at a line start after its first. -/
theorem SafeFrom_false {w : List Char} (hw : '\n' ∉ w) : SafeFrom false w := by
  induction w with
  | nil => trivial
  | cons c w ih =>
    simp only [List.mem_cons, not_or] at hw
    exact ⟨by simp, by rw [decide_eq_false (Ne.symm hw.1)]; exact ih hw.2⟩

/-- A piece that starts with neither control character and holds no newline is safe wherever it
goes. -/
theorem SafeFrom_piece {b : Bool} {c : Char} {w : List Char} (hc : c ≠ '.' ∧ c ≠ apostrophe)
    (hw : '\n' ∉ c :: w) : SafeFrom b (c :: w) := by
  simp only [List.mem_cons, not_or] at hw
  exact ⟨fun _ => hc, by rw [decide_eq_false (Ne.symm hw.1)]; exact SafeFrom_false hw.2⟩

/-- A piece without a newline does not end a line. -/
theorem endsLine_piece {b : Bool} {o w : List Char} (hw : w ≠ []) (hn : '\n' ∉ w) :
    endsLine b (o ++ w) = false := by
  rw [endsLine_append hw, endsLine, List.getLast?_eq_getLast w hw]
  exact decide_eq_false fun h => hn (h ▸ List.getLast_mem hw)

/-- The digits `Nat.toDigits 16` writes, upper-cased. -/
theorem toUpper_digitChar_mem :
    ∀ m < 16, (Nat.digitChar m).toUpper ∈ "0123456789ABCDEF".data := by
  decide

theorem mem_toDigitsCore {b : Nat} (hb : 0 < b) {c : Char} :
    ∀ {fuel n ds}, c ∈ Nat.toDigitsCore b fuel n ds → c ∈ ds ∨ ∃ m < b, c = Nat.digitChar m
  | 0, _, _, h => .inl h
  | fuel + 1, n, ds, h => by
    have hd : ∀ {l}, c ∈ Nat.digitChar (n % b) :: l → c ∈ l ∨ ∃ m < b, c = Nat.digitChar m :=
      fun h => (List.mem_cons.mp h).symm.imp_right fun e => ⟨_, Nat.mod_lt n hb, e⟩
    simp only [Nat.toDigitsCore] at h
    split_ifs at h
    · exact hd h
    · exact (mem_toDigitsCore hb h).elim hd .inr

/-- `hex04` writes upper-case hexadecimal digits only. -/
theorem mem_hex04 {n : Nat} {c : Char} (h : c ∈ hex04 n) : c ∈ "0123456789ABCDEF".data := by
  simp only [hex04, List.mem_append, List.mem_replicate, List.mem_map] at h
  rcases h with ⟨-, rfl⟩ | ⟨d, hd, rfl⟩
  · decide
  · rcases mem_toDigitsCore (by decide) hd with h | ⟨m, hm, rfl⟩
    · simp at h
    · exact toUpper_digitChar_mem m hm

/-! ### The invariant -/

/-- What holds of `escRoff`'s state while escaping is on: whenever the output so far is empty or
ends a line, `atnl` is set, and no character of the output that starts a line is `.` or `'`. -/
structure EscInv (st : EscState) : Prop where
  /-- Escaping is on. -/
  noesc : st.noesc = false
  /-- No line of the output starts with a control character. -/
  safe : SafeFrom true st.ns
  /-- At a line start the loop knows it is at one. -/
  atnl : endsLine true st.ns = true → st.atnl = true

theorem EscInv.init : EscInv ⟨[], true, false⟩ := ⟨rfl, trivial, fun _ => rfl⟩

/-- Appending an escape sequence, whatever it does to `atnl`. -/
theorem EscInv.piece {st : EscState} (h : EscInv st) {c : Char} {w : List Char}
    (hc : c ≠ '.' ∧ c ≠ apostrophe) (hw : '\n' ∉ c :: w) (a : Bool) :
    EscInv { st with ns := st.ns ++ c :: w, atnl := a } where
  noesc := h.noesc
  safe := SafeFrom_append.mpr ⟨h.safe, SafeFrom_piece hc hw⟩
  atnl := by simp [endsLine_piece (List.cons_ne_nil c w) hw]

/-- The code after the switch keeps the invariant when a rune that starts a line is neither
control character. -/
theorem EscInv.emit {st : EscState} (h : EscInv st) {r : Char}
    (hr : st.atnl = true → r ≠ '.' ∧ r ≠ apostrophe) : EscInv (st.emit r) where
  noesc := h.noesc
  safe := SafeFrom_append.mpr ⟨h.safe, fun hl => hr (h.atnl hl), trivial⟩
  atnl := by
    rw [EscState.emit, endsLine_append (List.cons_ne_nil r []), endsLine]
    intro hl
    simp_all

/-- **Step lemma.** An iteration on a rune that switches nothing keeps the invariant. -/
theorem EscInv.step {resc rnoesc r : Char} {st : EscState} (h : EscInv st) (hr₁ : r ≠ resc)
    (hr₂ : r ≠ rnoesc) : EscInv (escStep resc rnoesc st r) := by
  have hne : ¬st.noesc = true := by simp [h.noesc]
  rw [escStep, if_neg hr₁, if_neg hr₂, if_neg hne]
  split_ifs with hdot hap hbs hmac hcopy hhi
  · exact h.piece (by decide) (by decide) false
  · exact h.piece (by decide) (by decide) false
  · exact h.piece (by decide) (by decide) st.atnl
  · exact h.emit fun _ => ⟨by decide, by decide⟩
  · exact h.piece (by decide) (by decide) st.atnl
  · rw [List.append_assoc, List.append_assoc]
    have hx : '\n' ∉ hex04 r.toNat := fun hx => absurd (mem_hex04 hx) (by decide)
    exact h.piece (by decide) (by simpa using hx) st.atnl
  · exact h.emit fun ha => ⟨fun hd => hdot ⟨ha, hd⟩, fun hd => hap ⟨ha, hd⟩⟩

/-- **Run lemma.** Over runes none of which switches escaping, the loop keeps the invariant. -/
theorem EscInv.foldl {resc rnoesc : Char} {rs : List Char}
    (hrs : ∀ r ∈ rs, r ≠ resc ∧ r ≠ rnoesc) :
    ∀ {st : EscState}, EscInv st → EscInv (rs.foldl (escStep resc rnoesc) st) := by
  induction rs with
  | nil => exact fun h => h
  | cons r rs ih =>
    intro st h
    have hr := hrs r (List.mem_cons_self r rs)
    exact ih (fun r' hr' => hrs r' (List.mem_cons_of_mem r hr')) (h.step hr.1 hr.2)

/-! ### Line starts of the output -/

theorem SafeFrom.head {c : Char} {o : List Char} (h : SafeFrom true (c :: o)) :
    c ≠ '.' ∧ c ≠ apostrophe :=
  h.1 rfl

theorem SafeFrom.after_newline {b : Bool} {pre post : List Char} {c : Char}
    (h : SafeFrom b (pre ++ '\n' :: c :: post)) : c ≠ '.' ∧ c ≠ apostrophe :=
  (SafeFrom_append.mp h).2.2.1 rfl

/-- **No request injection.** For text where neither switching rune occurs, neither the first
character of `escRoff(s)` nor any character right after a newline in it is `.` or `'`. -/
theorem escRoff_line_starts (resc rnoesc : Char) (s : String) (hesc : resc ∉ s.data)
    (hnoesc : rnoesc ∉ s.data) :
    (∀ c, (escRoff resc rnoesc s).data.head? = some c → c ≠ '.' ∧ c ≠ apostrophe) ∧
      ∀ pre post c, (escRoff resc rnoesc s).data = pre ++ '\n' :: c :: post →
        c ≠ '.' ∧ c ≠ apostrophe := by
  have hsafe : SafeFrom true (escRoff resc rnoesc s).data :=
    (EscInv.foldl (fun r hr => ⟨by rintro rfl; exact hesc hr, by rintro rfl; exact hnoesc hr⟩)
      EscInv.init).safe
  refine ⟨fun c hc => ?_, fun pre post c ho => (ho ▸ hsafe).after_newline⟩
  obtain ⟨o, ho⟩ := List.head?_eq_some_iff.mp hc
  exact (ho ▸ hsafe).head

theorem escRoff_line_starts_dot :
    (escRoff '\x01' '\x02' ".x\n\x27y").data =
        ['\\', '&', '.', 'x', '\n', '\\', '&', apostrophe, 'y'] ∧
      '\\' ≠ '.' ∧ '\\' ≠ apostrophe :=
  ⟨by decide, (escRoff_line_starts '\x01' '\x02' ".x\n\x27y" (by decide) (by decide)).2
    ['\\', '&', '.', 'x'] ['&', apostrophe, 'y'] '\\' (by decide)⟩

end Wr
