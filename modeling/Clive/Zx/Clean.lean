import Clive.Strings

/-!
# `path.Clean`

The zx path functions clean their arguments with Go's `path.Clean`, which returns "the
shortest path name equivalent to path by purely lexical processing". This module models the
loop as Go's standard library writes it, and then says what the loop computes on a rooted
path: of the `/`-separated elements it keeps the names, dropping empty and `.` elements and
letting each `..` remove the name before it (none at the root).

## Main definitions

* `cleanLoop`, `clean`: Go's `path.Clean`. The lazy buffer `out` is kept last byte first, so
  `out.append` is a cons and `out.w` is its length; `backtrack` is the `..` case. Every
  iteration consumes a byte, so `clean` bounds the loop by `len(path)`.
* `IsName`: an element `Clean` keeps of a rooted path.
* `cleanElem`, `cleanFrom`, `cleanElems`: the element-level reading, a stack of names folded
  over `strings.Split(path, "/")`; `render` is the buffer that holds a stack.

## Main results

* `cleanLoop_render`: the loop, run over the rest of a rooted path from the buffer of a
  stack, ends with the buffer of the stack that folding the rest's elements gives;
* `clean_rooted`: `Clean("/" + rest)` is `/` followed by `cleanElems rest` joined with `/`;
* `cleanFrom_append`, `cleanFrom_names`: folding two paths joined by `/` folds the second
  onto the first's result, and names are pushed as they are, so a clean path is left alone
  (`clean_names`).
-/

namespace Zx

open Strings

/-! ### The loop -/

/-- The `..` case of `path.Clean`: `out.w--`, then back up while `out.w > dotdot` and the byte
just dropped is not `/`. The buffer is kept last byte first. -/
def backtrack (dotdot : Nat) : List Char → List Char
  | [] => []
  | c :: out => if dotdot < out.length ∧ c ≠ '/' then backtrack dotdot out else out

/-- `path.Clean`'s loop `for r < n` over `path[r:]`, for at most `fuel` iterations. `out` is
the lazy buffer kept last byte first, and `dotdot` is the index in it where `..` must stop. -/
def cleanLoop (rooted : Bool) : Nat → List Char → List Char → Nat → List Char
  | 0, _, out, _ => out
  | _ + 1, [], out, _ => out
  | fuel + 1, c :: rest, out, dotdot =>
    if c == '/' then
      -- empty path element
      cleanLoop rooted fuel rest out dotdot
    else if c == '.' && atSep '/' rest then
      -- . element
      cleanLoop rooted fuel rest out dotdot
    else if c == '.' && rest.head? == some '.' && atSep '/' rest.tail then
      -- .. element: remove to last /
      if dotdot < out.length then cleanLoop rooted fuel rest.tail (backtrack dotdot out) dotdot
      else if !rooted then
        -- cannot backtrack, but not rooted, so append .. element
        let out := '.' :: '.' :: (if 0 < out.length then '/' :: out else out)
        cleanLoop rooted fuel rest.tail out out.length
      else cleanLoop rooted fuel rest.tail out dotdot
    else
      -- real path element: add slash if needed, then copy the element
      let out := if rooted && out.length != 1 || !rooted && out.length != 0 then '/' :: out
        else out
      cleanLoop rooted fuel (rest.dropWhile (· != '/'))
        ((c :: rest.takeWhile (· != '/')).reverse ++ out) dotdot

/-- `path.Clean`: the shortest path name equivalent to `path` by purely lexical processing;
`"."` for a path that cleans to nothing. -/
def clean (path : String) : String :=
  match path.data with
  | [] => "."
  | c :: rest =>
    let rooted := c == '/'
    let out := if rooted then cleanLoop rooted rest.length rest ['/'] 1
      else cleanLoop rooted (rest.length + 1) (c :: rest) [] 0
    -- Turn empty string into "."
    if out.isEmpty then "." else String.mk out.reverse

example : clean "/a/./b/../c//" = "/a/c" := by decide
example : clean "a/../../b" = "../b" := by decide

/-! ### What the loop computes on a rooted path -/

/-- An element `Clean` keeps of a rooted path: non-empty, without `/`, neither `.` nor `..`. -/
def IsName (e : List Char) : Prop := e ≠ [] ∧ '/' ∉ e ∧ e ≠ ['.'] ∧ e ≠ ['.', '.']

instance (e : List Char) : Decidable (IsName e) := inferInstanceAs (Decidable (_ ∧ _))

/-- What `Clean` does with one element of a rooted path, on the names kept so far (last
first): an empty or `.` element goes, `..` removes the last name (none at the root), and any
other element is kept. -/
def cleanElem (st : List (List Char)) (e : List Char) : List (List Char) :=
  if e = [] ∨ e = ['.'] then st else if e = ['.', '.'] then st.tail else e :: st

/-- The names kept, last first, once the elements of `rest` are folded onto `st`. -/
def cleanFrom (st : List (List Char)) (rest : List Char) : List (List Char) :=
  (rest.splitOn '/').foldl cleanElem st

/-- The names `Clean` keeps of the rooted path `/rest`, in order. -/
def cleanElems (rest : List Char) : List (List Char) :=
  (cleanFrom [] rest).reverse

/-- The buffer, last byte first, that holds the rooted path of the names `st` (last first):
each name is added after a `/` unless the buffer is just the root, as `Clean` adds it. -/
def render : List (List Char) → List Char
  | [] => ['/']
  | e :: st => e.reverse ++ (if (render st).length != 1 then '/' :: render st else render st)

/-! #### The fold -/

section Fold

variable {st : List (List Char)}

@[simp] theorem cleanElem_nil : cleanElem st [] = st := by
  simp [cleanElem]

@[simp] theorem cleanFrom_nil : cleanFrom st [] = st := by
  simp [cleanFrom]

/-- An empty element goes. -/
theorem cleanFrom_sep (rest : List Char) : cleanFrom st ('/' :: rest) = cleanFrom st rest := by
  simp [cleanFrom, splitOn_cons_self, cleanElem]

/-- An element followed by a token boundary is folded first. -/
theorem cleanFrom_elem {e rest : List Char} (he : '/' ∉ e) (hr : atSep '/' rest = true) :
    cleanFrom st (e ++ rest) = cleanFrom (cleanElem st e) rest := by
  rcases rest with _ | ⟨c, rest⟩
  · simp [cleanFrom, splitOn_of_not_mem he]
  · obtain rfl : c = '/' := by simpa using hr
    rw [cleanFrom_sep, cleanFrom, splitOn_append_cons, splitOn_of_not_mem he]
    rfl

/-- Folding two paths joined by `/` folds the second onto the first's result. -/
theorem cleanFrom_append (a b : List Char) :
    cleanFrom st (a ++ '/' :: b) = cleanFrom (cleanFrom st a) b := by
  simp [cleanFrom, splitOn_append_cons]

/-- A name is pushed. -/
theorem cleanElem_name {e : List Char} (he : IsName e) : cleanElem st e = e :: st := by
  simp [cleanElem, he.1, he.2.2.1, he.2.2.2]

/-- The stack holds names only. -/
theorem cleanElem_names {e : List Char} (he : '/' ∉ e) (hst : ∀ n ∈ st, IsName n) :
    ∀ n ∈ cleanElem st e, IsName n := by
  unfold cleanElem
  split_ifs with h₁ h₂
  · exact hst
  · exact fun n hn => hst n (List.mem_of_mem_tail hn)
  · push_neg at h₁
    rintro n (_ | ⟨_, hn⟩)
    · exact ⟨h₁.1, he, h₁.2, h₂⟩
    · exact hst n hn

theorem foldl_isName {es : List (List Char)} (hes : ∀ e ∈ es, '/' ∉ e)
    (hst : ∀ n ∈ st, IsName n) : ∀ n ∈ es.foldl cleanElem st, IsName n := by
  induction es generalizing st with
  | nil => exact hst
  | cons e es ih =>
    exact ih (fun e' he' => hes e' (List.mem_cons_of_mem _ he'))
      (cleanElem_names (hes e (List.mem_cons_self _ _)) hst)

theorem cleanFrom_isName (rest : List Char) (hst : ∀ n ∈ st, IsName n) :
    ∀ n ∈ cleanFrom st rest, IsName n :=
  foldl_isName (fun _ he => not_mem_of_mem_splitOn he) hst

/-- `cleanElems` keeps names only. -/
theorem cleanElems_isName (rest : List Char) : ∀ n ∈ cleanElems rest, IsName n := by
  intro n hn
  exact cleanFrom_isName rest (by simp) n (List.mem_reverse.mp hn)

/-- Names are pushed as they are. -/
theorem foldl_names {es : List (List Char)} (h : ∀ e ∈ es, IsName e) :
    es.foldl cleanElem st = es.reverse ++ st := by
  induction es generalizing st with
  | nil => rfl
  | cons e es ih =>
    rw [List.foldl_cons, cleanElem_name (h e (List.mem_cons_self _ _)),
      ih fun e' he' => h e' (List.mem_cons_of_mem _ he')]
    simp

theorem cleanFrom_names {es : List (List Char)} (h : ∀ e ∈ es, IsName e) :
    cleanFrom st (['/'].intercalate es) = es.reverse ++ st := by
  rcases es with _ | ⟨e, es⟩
  · simp
  rw [cleanFrom, List.splitOn_intercalate _ _ (fun e he => (h e he).2.1) (List.cons_ne_nil _ _),
    foldl_names h]

end Fold

/-! #### The loop refines the fold -/

section Loop

variable {st : List (List Char)}

theorem render_ne_nil : ∀ st : List (List Char), render st ≠ []
  | [] => by simp [render]
  | e :: st => by simp only [render]; split <;> simp [render_ne_nil st]

/-- The buffer of a stack of names is just the root only for the empty stack. -/
theorem render_length_eq_one (hst : ∀ n ∈ st, IsName n) : (render st).length = 1 ↔ st = [] := by
  rcases st with _ | ⟨e, st⟩
  · simp [render]
  · have he : 0 < e.length := List.length_pos.mpr (hst e (List.mem_cons_self _ _)).1
    have hr : 0 < (render st).length := List.length_pos.mpr (render_ne_nil st)
    simp only [render]
    split <;> simp <;> omega

theorem render_singleton (e : List Char) : render [e] = e.reverse ++ ['/'] := rfl

/-- A name goes after a `/` in the buffer of a non-empty stack. -/
theorem render_cons_cons {e n : List Char} (hst : ∀ m ∈ n :: st, IsName m) :
    render (e :: n :: st) = e.reverse ++ '/' :: render (n :: st) := by
  have h := (render_length_eq_one hst).not.mpr (List.cons_ne_nil _ _)
  simp [render.eq_2 e (n :: st), h]

theorem backtrack_sep {a R : List Char} (ha : '/' ∉ a) (hR : R ≠ []) :
    backtrack 1 (a ++ '/' :: R) = R := by
  induction a with
  | nil => simp [backtrack]
  | cons x a ih =>
    have hx : x ≠ '/' := fun h => ha (h ▸ List.mem_cons_self _ _)
    have hlen : 1 < (a ++ '/' :: R).length := by
      have := List.length_pos.mpr hR
      simp; omega
    rw [List.cons_append, backtrack, if_pos ⟨hlen, hx⟩,
      ih fun h => ha (List.mem_cons_of_mem _ h)]

theorem backtrack_root {a : List Char} (ha : '/' ∉ a) (hne : a ≠ []) :
    backtrack 1 (a ++ ['/']) = ['/'] := by
  induction a with
  | nil => contradiction
  | cons x a ih =>
    rcases a with _ | ⟨y, a⟩
    · simp [backtrack]
    · have hx : x ≠ '/' := fun h => ha (h ▸ List.mem_cons_self _ _)
      rw [List.cons_append, backtrack, if_pos ⟨by simp, hx⟩,
        ih (fun h => ha (List.mem_cons_of_mem _ h)) (List.cons_ne_nil _ _)]

/-- **`..` pops the last name** off the buffer. -/
theorem backtrack_render {e : List Char} (he : IsName e) (hst : ∀ n ∈ st, IsName n) :
    backtrack 1 (render (e :: st)) = render st := by
  have he' : '/' ∉ e.reverse := by simpa using he.2.1
  rcases st with _ | ⟨n, st⟩
  · exact backtrack_root he' (by simpa using he.1)
  · rw [render_cons_cons hst]
    exact backtrack_sep he' (render_ne_nil _)

theorem takeWhile_eq_nil_iff_atSep (l : List Char) :
    l.takeWhile (· != '/') = [] ↔ atSep '/' l = true := by
  cases l <;> simp [List.takeWhile_cons]

theorem atSep_dropWhile (l : List Char) : atSep '/' (l.dropWhile (· != '/')) = true := by
  induction l with
  | nil => rfl
  | cons c l ih =>
    rw [List.dropWhile_cons]
    split <;> simp_all

/-- The element the loop copies is a name when the `.` and `..` cases did not apply. -/
theorem isName_copy {c : Char} {rest : List Char} (hc : c ≠ '/')
    (hdot : ¬(c = '.' ∧ atSep '/' rest = true))
    (hdotdot : ¬(c = '.' ∧ rest.head? = some '.' ∧ atSep '/' rest.tail = true)) :
    IsName (c :: rest.takeWhile (· != '/')) := by
  refine ⟨List.cons_ne_nil _ _, ?_, ?_, ?_⟩
  · rintro (_ | ⟨_, h⟩)
    · exact hc rfl
    · simpa using List.mem_takeWhile_imp h
  · intro h
    simp only [List.cons.injEq, takeWhile_eq_nil_iff_atSep] at h
    exact hdot h
  · intro h
    simp only [List.cons.injEq] at h
    obtain ⟨rfl, h⟩ := h
    rcases rest with _ | ⟨d, rest⟩
    · simp at h
    · rw [List.takeWhile_cons] at h
      split_ifs at h with hd
      simp only [List.cons.injEq, takeWhile_eq_nil_iff_atSep] at h
      obtain ⟨rfl, h⟩ := h
      exact hdotdot ⟨rfl, rfl, h⟩

/-- **The loop refines the fold.** Run over the rest of a rooted path from the buffer of a
stack of names, with enough fuel, `Clean`'s loop ends with the buffer of the stack that folding
the rest's elements onto it gives. -/
theorem cleanLoop_render : ∀ (fuel : Nat) (rest : List Char) (st : List (List Char)),
    rest.length ≤ fuel → (∀ n ∈ st, IsName n) →
      cleanLoop true fuel rest (render st) 1 = render (cleanFrom st rest)
  | 0, rest, st, hf, _ => by
    obtain rfl : rest = [] := List.eq_nil_of_length_eq_zero (by omega)
    simp [cleanLoop]
  | _ + 1, [], st, _, _ => by simp [cleanLoop]
  | fuel + 1, c :: rest, st, hf, hst => by
    have hf' : rest.length ≤ fuel := by simpa using hf
    have ih := fun rest st hr hst => cleanLoop_render fuel rest st hr hst
    rw [cleanLoop]
    split
    · -- empty path element
      rename_i h₁
      obtain rfl : c = '/' := by simpa using h₁
      rw [cleanFrom_sep]
      exact ih rest st hf' hst
    split
    · -- `.` element
      rename_i h₂
      obtain ⟨rfl, hr⟩ : c = '.' ∧ atSep '/' rest = true := by simpa using h₂
      rw [show '.' :: rest = ['.'] ++ rest from rfl, cleanFrom_elem (by decide) hr]
      simpa [cleanElem] using ih rest st hf' hst
    rename_i h₁ h₂
    split
    · -- `..` element
      obtain ⟨rfl, r, rfl, hr⟩ : c = '.' ∧ ∃ r, rest = '.' :: r ∧ atSep '/' r = true := by
        rcases rest with _ | ⟨d, r⟩ <;> simp_all
      have hr' : r.length ≤ fuel := by simp at hf'; omega
      rw [show '.' :: '.' :: r = ['.', '.'] ++ r from rfl, cleanFrom_elem (by decide) hr]
      simp only [cleanElem, List.tail_cons]
      split
      · -- back up over the last name
        rcases st with _ | ⟨n, st⟩
        · simp [render] at *
        · rw [backtrack_render (hst n (List.mem_cons_self _ _))
            fun m hm => hst m (List.mem_cons_of_mem _ hm)]
          simpa using ih r st hr' fun m hm => hst m (List.mem_cons_of_mem _ hm)
      · -- rooted: a `..` at the root goes
        rename_i hlt
        obtain rfl : st = [] := (render_length_eq_one hst).mp
          (by have := List.length_pos.mpr (render_ne_nil st); omega)
        simpa using ih r [] hr' (by simp)
    · -- real path element
      rename_i h₃
      have hname := isName_copy (by simpa using h₁) (by simpa using h₂) (by simpa using h₃)
      have hbuf : (c :: rest.takeWhile (· != '/')).reverse ++
          (if (true && (render st).length != 1 || !true && (render st).length != 0) = true then
            '/' :: render st else render st) = render ((c :: rest.takeWhile (· != '/')) :: st) := by
        simp only [render, Bool.true_and, Bool.not_true, Bool.false_and, Bool.or_false]
      have hsplit : c :: rest = (c :: rest.takeWhile (· != '/')) ++ rest.dropWhile (· != '/') := by
        rw [List.cons_append, List.takeWhile_append_dropWhile]
      dsimp only
      rw [hbuf, hsplit, cleanFrom_elem hname.2.1 (atSep_dropWhile rest), cleanElem_name hname]
      exact ih _ _ ((List.dropWhile_suffix _).length_le.trans hf')
        fun m hm => (List.mem_cons.mp hm).elim (· ▸ hname) (hst m)

/-- The buffer of a stack of names, read forwards, is the rooted path of the names in order. -/
theorem render_reverse : ∀ {st : List (List Char)}, (∀ n ∈ st, IsName n) →
    (render st).reverse = '/' :: ['/'].intercalate st.reverse
  | [], _ => rfl
  | [e], _ => by simp [render_singleton]
  | e :: n :: st, hst => by
    have hst' : ∀ m ∈ n :: st, IsName m := fun m hm => hst m (List.mem_cons_of_mem _ hm)
    rw [render_cons_cons hst', List.reverse_append, List.reverse_cons, render_reverse hst',
      List.reverse_reverse, List.reverse_cons e,
      intercalate_append (by simp) (List.cons_ne_nil _ _)]
    simp

/-- **`Clean` of a rooted path** is `/` followed by the names `cleanElems` keeps, joined with
`/`. -/
theorem clean_rooted (rest : List Char) :
    clean ⟨'/' :: rest⟩ = ⟨'/' :: ['/'].intercalate (cleanElems rest)⟩ := by
  have h : cleanLoop true rest.length rest ['/'] 1 = render (cleanFrom [] rest) :=
    cleanLoop_render rest.length rest [] le_rfl (by simp)
  have hne : (render (cleanFrom [] rest)).isEmpty = false :=
    List.isEmpty_eq_false.mpr (render_ne_nil _)
  simp only [clean, beq_self_eq_true, if_true, h, hne, Bool.false_eq_true, if_false, cleanElems]
  rw [render_reverse (cleanFrom_isName rest (by simp))]

/-- **A clean path is left alone**: `Clean` of `/` followed by names joined with `/` is the
path itself. -/
theorem clean_names {es : List (List Char)} (h : ∀ e ∈ es, IsName e) :
    clean ⟨'/' :: ['/'].intercalate es⟩ = ⟨'/' :: ['/'].intercalate es⟩ := by
  rw [clean_rooted, cleanElems, cleanFrom_names h, List.append_nil, List.reverse_reverse]

end Loop

end Zx
