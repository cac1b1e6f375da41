import Mathlib.Data.List.Basic

/-!
# Go's `strings` on character lists

The models keep a Go string as its characters, `s.data`. `strings.Split(s, sep)` for a
one-character separator is `List.splitOn`, `strings.Join(elems, sep)` is `String.intercalate`
(`data_intercalate` reads it on characters), and `strings.HasPrefix(s, pref)` is
`List.isPrefixOf`. Go indexes bytes where the model indexes characters; the separators used
here (`!`, `/`) are single bytes, which UTF-8 never uses inside another character, so the two
agree on where a token starts and ends.

## Main results

* `splitOn_append_cons`: splitting at a separator splits the two sides apart;
* `prefix_iff_intercalate`: a list of non-empty tokens is a prefix of another exactly when its
  join is a prefix of the other's join that ends at a token boundary (`atSep`);
* `prefix_atSep_iff`: that boundary test is `strings.HasPrefix` followed by Go's
  `len(p) == len(pref) || p[len(pref)] == sep`.
-/

namespace Strings

variable {α : Type}

section Split

variable [DecidableEq α]

/-- `rest` starts where a token ends: it is empty or starts with the separator. -/
def atSep (sep : α) : List α → Bool
  | [] => true
  | c :: _ => c == sep

@[simp] theorem atSep_nil (sep : α) : atSep sep [] = true := rfl

@[simp] theorem atSep_cons (sep c : α) (l : List α) : atSep sep (c :: l) = (c == sep) := rfl

/-! ### Split -/

/-- No token of `strings.Split` holds the separator. -/
theorem not_mem_of_mem_splitOn {x : α} :
    ∀ {xs l : List α}, l ∈ xs.splitOn x → x ∉ l
  | [], l, hl => by simp_all
  | y :: ys, l, hl => by
    have ih : ∀ l ∈ ys.splitOn x, x ∉ l := fun l hl => not_mem_of_mem_splitOn hl
    simp only [List.splitOn, List.splitOnP_cons] at hl
    split_ifs at hl with hy
    · rcases List.mem_cons.mp hl with rfl | hl
      · simp
      · exact ih l hl
    · rcases h : ys.splitOnP (· == x) with _ | ⟨l₀, ls⟩
      · exact absurd h (List.splitOnP_ne_nil _ _)
      rw [h, List.modifyHead_cons] at hl
      have ih' : ∀ l ∈ l₀ :: ls, x ∉ l := by rw [← h]; exact ih
      rcases List.mem_cons.mp hl with rfl | hl
      · exact List.not_mem_cons_of_ne_of_not_mem (fun e => hy (by simp [e]))
          (ih' l₀ (List.mem_cons_self _ _))
      · exact ih' l (List.mem_cons_of_mem _ hl)

/-- Splitting at a separator splits the two sides apart. -/
theorem splitOn_append_cons (xs ys : List α) (x : α) :
    (xs ++ x :: ys).splitOn x = xs.splitOn x ++ ys.splitOn x := by
  induction xs with
  | nil => simp [List.splitOn]
  | cons y xs ih =>
    simp only [List.splitOn] at ih ⊢
    rw [List.cons_append, List.splitOnP_cons, List.splitOnP_cons, ih]
    split_ifs
    · rfl
    · rcases h : xs.splitOnP (· == x) with _ | ⟨l₀, ls⟩
      · exact absurd h (List.splitOnP_ne_nil _ _)
      rfl

/-- A leading separator splits off an empty token. -/
theorem splitOn_cons_self (x : α) (ys : List α) : (x :: ys).splitOn x = [] :: ys.splitOn x :=
  splitOn_append_cons [] ys x

/-- A list without the separator is one token. -/
theorem splitOn_of_not_mem {xs : List α} {x : α} (h : x ∉ xs) : xs.splitOn x = [xs] :=
  List.splitOnP_eq_single _ _ fun y hy hyx => h (by rwa [eq_of_beq hyx] at hy)

/-- Tokens each brought in by the separator split back into the tokens, after whatever token
stands before the first separator. -/
theorem splitOn_append_flatten_cons {x : α} :
    ∀ {es : List (List α)} {e : List α}, x ∉ e → (∀ f ∈ es, x ∉ f) →
      (e ++ (es.map (x :: ·)).flatten).splitOn x = e :: es
  | [], _, he, _ => by simpa using splitOn_of_not_mem he
  | f :: es, e, he, hes => by
    rw [List.map_cons, List.flatten_cons, List.cons_append, splitOn_append_cons,
      splitOn_of_not_mem he, splitOn_append_flatten_cons (hes f (List.mem_cons_self _ _))
        fun g hg => hes g (List.mem_cons_of_mem _ hg)]
    rfl

/-- Tokens each brought in by the separator split back into an empty token and the tokens. -/
theorem splitOn_flatten_cons {x : α} {es : List (List α)} (hes : ∀ f ∈ es, x ∉ f) :
    ((es.map (x :: ·)).flatten).splitOn x = [] :: es := by
  simpa using splitOn_append_flatten_cons (List.not_mem_nil x) hes

/-! ### Split into at most `n` tokens -/

/-- `strings.SplitN(s, sep, n)` for a one-character separator and `n ≥ 0`: at most `n` tokens,
the last of them the unsplit rest. -/
def splitN (sep : α) : Nat → List α → List (List α)
  | 0, _ => []
  | 1, s => [s]
  | n + 2, s =>
    if sep ∈ s then s.takeWhile (· != sep) :: splitN sep (n + 1) (s.dropWhile (· != sep)).tail
    else [s]

theorem takeWhile_append_cons {x : α} {rest : List α} :
    ∀ {a : List α}, x ∉ a → (a ++ x :: rest).takeWhile (· != x) = a
  | [], _ => by simp
  | c :: a, h => by
    have hc : (c != x) = true := by simpa using fun e => h (by rw [e]; exact List.mem_cons_self _ _)
    rw [List.cons_append, List.takeWhile_cons, if_pos hc,
      takeWhile_append_cons fun h' => h (List.mem_cons_of_mem _ h')]

theorem dropWhile_append_cons {x : α} {rest : List α} :
    ∀ {a : List α}, x ∉ a → (a ++ x :: rest).dropWhile (· != x) = x :: rest
  | [], _ => by simp
  | c :: a, h => by
    have hc : (c != x) = true := by simpa using fun e => h (by rw [e]; exact List.mem_cons_self _ _)
    rw [List.cons_append, List.dropWhile_cons, if_pos hc,
      dropWhile_append_cons fun h' => h (List.mem_cons_of_mem _ h')]

/-- A list with the separator is its first token, the separator, and the rest. -/
theorem eq_takeWhile_append {x : α} : ∀ {s : List α}, x ∈ s →
    s = s.takeWhile (· != x) ++ x :: (s.dropWhile (· != x)).tail ∧ x ∉ s.takeWhile (· != x)
  | c :: s, h => by
    by_cases hc : c = x
    · subst hc; simp
    · have ih := eq_takeWhile_append ((List.mem_cons.mp h).resolve_left (Ne.symm hc))
      have hc' : (c != x) = true := by simpa using hc
      simp only [List.takeWhile_cons, List.dropWhile_cons, hc', if_true]
      exact ⟨by rw [List.cons_append, ← ih.1], by simp [Ne.symm hc, ih.2]⟩

/-- `SplitN` with room for another token splits at the first separator, if there is one. -/
theorem splitN_eq_cons {x : α} {n : Nat} {s a : List α} {t : List (List α)} :
    splitN x (n + 2) s = a :: t ↔
      (∃ rest, s = a ++ x :: rest ∧ x ∉ a ∧ splitN x (n + 1) rest = t) ∨
        (x ∉ s ∧ a = s ∧ t = []) := by
  rw [splitN]
  split_ifs with h
  · constructor
    · rintro ⟨⟩
      exact .inl ⟨_, (eq_takeWhile_append h).1, (eq_takeWhile_append h).2, rfl⟩
    · rintro (⟨rest, rfl, ha, rfl⟩ | ⟨h', -⟩)
      · rw [takeWhile_append_cons ha, dropWhile_append_cons ha, List.tail_cons]
      · exact absurd h h'
  · constructor
    · rintro ⟨⟩
      exact .inr ⟨h, rfl, rfl⟩
    · rintro (⟨rest, rfl, -, -⟩ | ⟨-, rfl, rfl⟩)
      · simp at h
      · rfl

/-- `SplitN(s, sep, 3)` gives three tokens when `s` has two separators or more. -/
theorem splitN_three_eq_three {x : α} {s a b c : List α} :
    splitN x 3 s = [a, b, c] ↔ s = a ++ x :: (b ++ x :: c) ∧ x ∉ a ∧ x ∉ b := by
  constructor
  · intro h
    rcases splitN_eq_cons.mp h with ⟨rest, rfl, ha, h'⟩ | ⟨-, -, h'⟩
    · rcases splitN_eq_cons.mp h' with ⟨rest', rfl, hb, h''⟩ | ⟨-, -, h''⟩
      · simp only [splitN, List.cons.injEq, and_true] at h''
        exact ⟨by rw [h''], ha, hb⟩
      · cases h''
    · cases h'
  · rintro ⟨rfl, ha, hb⟩
    exact splitN_eq_cons.mpr
      (.inl ⟨_, rfl, ha, splitN_eq_cons.mpr (.inl ⟨c, rfl, hb, rfl⟩)⟩)

/-- `SplitN(s, sep, 3)` gives two tokens when `s` has one separator. -/
theorem splitN_three_eq_two {x : α} {s a b : List α} :
    splitN x 3 s = [a, b] ↔ s = a ++ x :: b ∧ x ∉ a ∧ x ∉ b := by
  constructor
  · intro h
    rcases splitN_eq_cons.mp h with ⟨rest, rfl, ha, h'⟩ | ⟨-, -, h'⟩
    · rcases splitN_eq_cons.mp h' with ⟨rest', -, -, h''⟩ | ⟨hb, rfl, -⟩
      · simp [splitN] at h''
      · exact ⟨rfl, ha, hb⟩
    · cases h'
  · rintro ⟨rfl, ha, hb⟩
    exact splitN_eq_cons.mpr (.inl ⟨_, rfl, ha, splitN_eq_cons.mpr (.inr ⟨hb, rfl, rfl⟩)⟩)

end Split

/-! ### Join -/

@[simp] theorem intercalate_nil (sep : List α) : sep.intercalate [] = [] := rfl

@[simp] theorem intercalate_singleton (sep a : List α) : sep.intercalate [a] = a := by
  simp [List.intercalate]

theorem intercalate_cons_cons (sep a b : List α) (l : List (List α)) :
    sep.intercalate (a :: b :: l) = a ++ sep ++ sep.intercalate (b :: l) := by
  simp [List.intercalate, List.intersperse_cons_cons]

/-- A join starts with its first token. -/
theorem intercalate_cons (sep a : List α) (l : List (List α)) :
    sep.intercalate (a :: l) = a ++ sep.intercalate ([] :: l) := by
  cases l <;> simp [intercalate_cons_cons]

theorem intercalate_append {sep : List α} {l m : List (List α)} (hl : l ≠ []) (hm : m ≠ []) :
    sep.intercalate (l ++ m) = sep.intercalate l ++ sep ++ sep.intercalate m := by
  induction l with
  | nil => contradiction
  | cons a l ih =>
    cases l with
    | nil =>
      obtain ⟨b, m, rfl⟩ := List.exists_cons_of_ne_nil hm
      simp [intercalate_cons_cons]
    | cons b l =>
      have ih := ih (List.cons_ne_nil _ _)
      rw [List.cons_append] at ih
      rw [List.cons_append, List.cons_append, intercalate_cons_cons, ih, intercalate_cons_cons]
      simp

/-- A character of a join is in the separator or in a token. -/
theorem mem_intercalate {sep : List α} {c : α} :
    ∀ {l : List (List α)}, c ∈ sep.intercalate l → c ∈ sep ∨ ∃ t ∈ l, c ∈ t
  | [], h => by simp at h
  | [a], h => .inr ⟨a, List.mem_singleton_self a, by simpa using h⟩
  | a :: b :: l, h => by
    rw [intercalate_cons_cons] at h
    simp only [List.mem_append] at h
    rcases h with (h | h) | h
    · exact .inr ⟨a, List.mem_cons_self _ _, h⟩
    · exact .inl h
    · exact (mem_intercalate h).imp_right
        fun ⟨t, ht, h⟩ => ⟨t, List.mem_cons_of_mem _ ht, h⟩

/-- What follows the first token of a join starts at a token boundary. -/
theorem atSep_intercalate_nil_cons [DecidableEq α] (x : α) (l : List (List α)) :
    atSep x ([x].intercalate ([] :: l)) = true := by
  cases l <;> simp [intercalate_cons_cons]

/-- `strings.Join` on characters. -/
theorem data_intercalate (s : String) (l : List String) :
    (s.intercalate l).data = s.data.intercalate (l.map String.data) := by
  have go : ∀ (acc : String) (l : List String), (String.intercalate.go acc s l).data =
      acc.data ++ s.data.intercalate ([] :: l.map String.data) := by
    intro acc l
    induction l generalizing acc with
    | nil => simp [String.intercalate.go]
    | cons b l ih =>
      rw [String.intercalate.go, ih, List.map_cons, intercalate_cons_cons,
        intercalate_cons s.data b.data]
      simp [String.data_append]
  cases l with
  | nil => rfl
  | cons a l => rw [String.intercalate, go, List.map_cons, intercalate_cons s.data a.data]

/-! ### Prefixes at token boundaries -/

section Prefix

variable [DecidableEq α]

/-- Two tokens followed by token boundaries that spell the same list are the same token. -/
theorem append_atSep_cancel {x : α} :
    ∀ {e f T R : List α}, x ∉ e → x ∉ f → atSep x T → atSep x R → e ++ T = f ++ R →
      e = f ∧ T = R
  | [], [], _, _, _, _, _, _, h => ⟨rfl, h⟩
  | [], c :: f, _, _, _, hf, hT, _, h => by
    subst h
    exact absurd (by simpa using hT : c = x) fun hc => hf (hc ▸ List.mem_cons_self _ _)
  | c :: e, [], _, _, he, _, _, hR, h => by
    subst h
    exact absurd (by simpa using hR : c = x) fun hc => he (hc ▸ List.mem_cons_self _ _)
  | c :: e, d :: f, _, _, he, hf, hT, hR, h => by
    simp only [List.cons_append, List.cons.injEq] at h
    obtain ⟨rfl, h⟩ := h
    obtain ⟨rfl, hTR⟩ := append_atSep_cancel (fun h' => he (List.mem_cons_of_mem _ h'))
      (fun h' => hf (List.mem_cons_of_mem _ h')) hT hR h
    exact ⟨rfl, hTR⟩

/-- **Token-wise prefix.** A non-empty list of non-empty tokens without the separator is a
prefix of a list of tokens without it exactly when its join is a prefix of the other's join,
ending at a token boundary. -/
theorem prefix_iff_intercalate {x : α} :
    ∀ {fs es : List (List α)}, fs ≠ [] → (∀ f ∈ fs, f ≠ [] ∧ x ∉ f) → (∀ e ∈ es, x ∉ e) →
      (fs <+: es ↔ ∃ rest, [x].intercalate es = [x].intercalate fs ++ rest ∧ atSep x rest)
  | fs, es, hne, _, _ => by
    constructor
    · rintro ⟨gs, rfl⟩
      rcases gs with _ | ⟨g, gs⟩
      · exact ⟨[], by simp, rfl⟩
      · exact ⟨x :: [x].intercalate (g :: gs), by simp [intercalate_append hne], by simp⟩
    · intro h
      exact prefix_of_intercalate hne ‹_› ‹_› h
where
  prefix_of_intercalate {x : α} :
      ∀ {fs es : List (List α)}, fs ≠ [] → (∀ f ∈ fs, f ≠ [] ∧ x ∉ f) → (∀ e ∈ es, x ∉ e) →
        (∃ rest, [x].intercalate es = [x].intercalate fs ++ rest ∧ atSep x rest) → fs <+: es
    | [], _, hne, _, _, _ => absurd rfl hne
    | _ :: _, [], _, hfs, _, ⟨rest, h, _⟩ => by
      have hf := (hfs _ (List.mem_cons_self _ _)).1
      rw [intercalate_cons] at h
      simp_all
    | f :: fs, e :: es, _, hfs, hes, ⟨rest, h, hr⟩ => by
      have hf := hfs f (List.mem_cons_self _ _)
      rw [intercalate_cons [x] e es, intercalate_cons [x] f fs, List.append_assoc] at h
      obtain ⟨rfl, hTR⟩ := append_atSep_cancel (hes e (List.mem_cons_self _ _)) hf.2
        (atSep_intercalate_nil_cons x es) (by
          cases fs <;> simp_all [intercalate_cons_cons]) h
      rcases fs with _ | ⟨f', fs⟩
      · exact List.prefix_cons_inj _ |>.mpr (List.nil_prefix)
      rcases es with _ | ⟨e', es⟩
      · simp [intercalate_cons_cons] at hTR
      rw [intercalate_cons_cons, intercalate_cons_cons] at hTR
      simp only [List.nil_append, List.singleton_append, List.cons_append, List.cons.injEq,
        true_and] at hTR
      exact List.prefix_cons_inj _ |>.mpr (prefix_of_intercalate (List.cons_ne_nil _ _)
        (fun g hg => hfs g (List.mem_cons_of_mem _ hg))
        (fun g hg => hes g (List.mem_cons_of_mem _ hg)) ⟨rest, hTR, hr⟩)

/-- `strings.HasPrefix(p, q)` and then `len(p) == len(q) || p[len(q)] == sep`: `p` is `q`
followed by a token boundary. -/
theorem prefix_atSep_iff {x : α} {p q : List α} :
    (q <+: p ∧ (p.length = q.length ∨ p[q.length]? = some x)) ↔
      ∃ rest, p = q ++ rest ∧ atSep x rest := by
  constructor
  · rintro ⟨⟨rest, rfl⟩, h⟩
    refine ⟨rest, rfl, ?_⟩
    rcases rest with _ | ⟨c, rest⟩
    · rfl
    · rw [List.getElem?_append_right (le_refl _), Nat.sub_self] at h
      simpa using h
  · rintro ⟨rest, rfl, h⟩
    refine ⟨List.prefix_append _ _, ?_⟩
    rcases rest with _ | ⟨c, rest⟩
    · simp
    · right
      rw [List.getElem?_append_right (le_refl _), Nat.sub_self]
      simpa using h

end Prefix

end Strings
