import Clive.Zx.Clean
import Mathlib.Data.String.Basic

/-!
# zx paths

The path helpers of package `zx`: `Elems` splits a path into its elements, `HasPrefix` and
`Suffix` test for and cut off a prefix path, `Path` joins elements into a clean absolute path,
and `PathCmp` orders paths one element at a time. `HasPrefix`, `Suffix` and `Path` clean their
arguments with `path.Clean` (module `Clean`), so on absolute paths each is a statement about
the names `cleanElems` keeps.

## Main results

* `hasPrefix_elems`: `HasPrefix(p, pref)`, a test on the bytes of the cleaned paths, is
  element-wise prefix of the cleaned paths' elements;
* `suffix_rejoin`: `Suffix(p, pref)` is non-empty exactly when `HasPrefix(p, pref)`, and then
  starts with `/` and joins back with `pref` into `Clean(p)`;
* `pathCmp_order`: `PathCmp` is antisymmetric and transitive and ties exactly on equal
  elements; a directory sorts no later than what is under it, and what sorts between a
  directory and a path under it is under it too;
* `elems_path`: `Elems` and `Path` are inverse on lists of names and on absolute paths.
-/

namespace Zx

open Strings

/-! ### The functions -/

/-- `Elems`: the elements of `p`, none for `/` or the empty path; a leading `/` is dropped and
the rest split at every `/`. -/
def elems (p : String) : List String :=
  if p = "/" ∨ p = "" then [] else
  let p := if p.data.head? = some '/' then p.data.tail else p.data
  (p.splitOn '/').map String.mk

/-- `HasPrefix`: `pref` is a prefix path of `p`, or the same path. -/
def hasPrefix (p pref : String) : Bool :=
  if pref = "" then true else
  let p := clean p
  let pref := clean pref
  if pref.data.length > p.data.length then false
  else if !pref.data.isPrefixOf p.data then false
  else pref == "/" || p.data.length == pref.data.length || p.data[pref.data.length]? == some '/'

/-- `Path`: the path starting with `/` of `elems`, cleaned. -/
def path (elems : List String) : String :=
  let s := "/".intercalate elems
  let s := "/" ++ s
  clean s

/-- `Suffix`: the suffix of `p` relative to `pref`, starting with `/`, and `/` when both are the
same path; `""` when there is no such suffix. -/
def suffix (p pref : String) : String :=
  if p.data.length = 0 then "" else
  let p := clean p
  if pref = "" then p else
  let pref := clean pref
  if (pref.data.head? == some '/') != (p.data.head? == some '/') then "" else
  if pref = "." ∨ pref = "/" then p else
  let np := p.data.length
  let npref := pref.data.length
  if np < npref then "" else
  if !pref.data.isPrefixOf p.data then ""
  else if np = npref then "/"
  else if p.data[npref]? != some '/' then ""
  else ⟨p.data.drop npref⟩

/-- `PathCmp`'s loop over the elements both paths have, then its length tests. Elements
compare as Go compares strings, character by character. -/
def cmpElems : List String → List String → Int
  | e0 :: els0, e1 :: els1 =>
    if e0.data < e1.data then -1 else if e1.data < e0.data then 1 else cmpElems els0 els1
  | [], [] => 0
  | [], _ :: _ => -1
  | _ :: _, [] => 1

/-- `PathCmp`: `-1`, `0` or `1` as `path0` sorts before, at or after `path1`, comparing one
element at a time. -/
def pathCmp (path0 path1 : String) : Int :=
  cmpElems (elems path0) (elems path1)

/-! ### Absolute paths -/

theorem rooted_iff {p : String} : p.data.head? = some '/' ↔ ∃ rest, p = ⟨'/' :: rest⟩ := by
  rcases p with ⟨_ | ⟨c, rest⟩⟩
  · simp [String.ext_iff, show ("" : String).data = [] from rfl]
  · simp [String.ext_iff, eq_comm]

theorem mk_eq_root {l : List Char} : (⟨'/' :: l⟩ : String) = "/" ↔ l = [] := by
  simp [String.ext_iff, show ("/" : String).data = ['/'] from rfl]

theorem mk_ne_empty (l : List Char) : (⟨'/' :: l⟩ : String) ≠ "" :=
  fun h => List.cons_ne_nil '/' l (congrArg String.data h)

/-- Names join to nothing only when there are none. -/
theorem intercalate_eq_nil {es : List (List Char)} (h : ∀ e ∈ es, IsName e) :
    ['/'].intercalate es = [] ↔ es = [] := by
  rcases es with _ | ⟨e, es⟩
  · simp
  · simp [intercalate_cons ['/'] e es, (h e (List.mem_cons_self _ _)).1]

/-- `Elems` of a clean absolute path gives back its names. -/
theorem elems_names {es : List (List Char)} (h : ∀ e ∈ es, IsName e) :
    elems ⟨'/' :: ['/'].intercalate es⟩ = es.map String.mk := by
  unfold elems
  rcases es with _ | ⟨e, es⟩
  · rfl
  · have hne : ['/'].intercalate (e :: es) ≠ [] := by simp [intercalate_eq_nil h]
    rw [if_neg (by simp [mk_eq_root, hne, mk_ne_empty])]
    simp only [List.head?_cons, if_true, List.tail_cons]
    rw [List.splitOn_intercalate _ _ (fun e he => (h e he).2.1) (List.cons_ne_nil _ _)]

theorem prefix_map_mk_iff {l₁ l₂ : List (List Char)} :
    l₁.map String.mk <+: l₂.map String.mk ↔ l₁ <+: l₂ := by
  refine ⟨fun h => ?_, fun h => h.map _⟩
  simpa [Function.comp_def] using h.map String.data

/-! ### `HasPrefix` -/

/-- `HasPrefix`'s tests on the cleaned paths: the prefix is a prefix of the path, and it is `/`
or ends where the path ends or at a `/`. -/
theorem hasPrefix_test {P Q : List Char} {b : Bool} :
    (if Q.length > P.length then false else if !Q.isPrefixOf P then false
      else b || P.length == Q.length || P[Q.length]? == some '/') = true ↔
    Q <+: P ∧ (b = true ∨ P.length = Q.length ∨ P[Q.length]? = some '/') := by
  split_ifs with h₁ h₂
  · simp only [Bool.false_eq_true, false_iff, not_and]
    exact fun hp => absurd hp.length_le (by omega)
  · have : ¬Q <+: P := fun h => by simp [List.isPrefixOf_iff_prefix.mpr h] at h₂
    simp [this]
  · simp_all [List.isPrefixOf_iff_prefix, or_assoc]

/-- The boundary test on two clean absolute paths: the prefix's names, joined, are followed in
the path's by a token boundary. -/
theorem rooted_test_iff {es fs : List (List Char)} :
    ('/' :: ['/'].intercalate fs <+: '/' :: ['/'].intercalate es ∧
      (('/' :: ['/'].intercalate es).length = ('/' :: ['/'].intercalate fs).length ∨
        ('/' :: ['/'].intercalate es)[('/' :: ['/'].intercalate fs).length]? = some '/')) ↔
    ∃ r, ['/'].intercalate es = ['/'].intercalate fs ++ r ∧ atSep '/' r = true := by
  rw [prefix_atSep_iff]
  simp

/-- For names, and a prefix that is not `/`, that test is element-wise prefix. -/
theorem rooted_test_iff_prefixes {es fs : List (List Char)} (hes : ∀ e ∈ es, IsName e)
    (hfs : ∀ f ∈ fs, IsName f) (hf : fs ≠ []) :
    ('/' :: ['/'].intercalate fs <+: '/' :: ['/'].intercalate es ∧
      (('/' :: ['/'].intercalate es).length = ('/' :: ['/'].intercalate fs).length ∨
        ('/' :: ['/'].intercalate es)[('/' :: ['/'].intercalate fs).length]? = some '/')) ↔
    fs <+: es := by
  rw [rooted_test_iff, prefix_iff_intercalate hf (fun f hf' => ⟨(hfs f hf').1, (hfs f hf').2.1⟩)
    (fun e he => (hes e he).2.1)]

/-- **`HasPrefix` on absolute paths** is element-wise prefix of the names `Clean` keeps. -/
theorem hasPrefix_rooted (rest prest : List Char) :
    hasPrefix ⟨'/' :: rest⟩ ⟨'/' :: prest⟩ = true ↔ cleanElems prest <+: cleanElems rest := by
  simp only [hasPrefix, if_neg (mk_ne_empty prest), clean_rooted]
  rw [hasPrefix_test]
  by_cases hf : cleanElems prest = []
  · simp [hf, mk_eq_root]
  · have hb : ((⟨'/' :: ['/'].intercalate (cleanElems prest)⟩ : String) == "/") = false := by
      simp [mk_eq_root, intercalate_eq_nil (cleanElems_isName prest), hf]
    rw [hb, Bool.false_eq_true, false_or,
      rooted_test_iff_prefixes (cleanElems_isName rest) (cleanElems_isName prest) hf]

/-- **`HasPrefix` is element-wise prefix.** For paths `p` and `pref` that begin with `/`,
`HasPrefix(p, pref)` holds exactly when the elements of `Clean(pref)` are a prefix of those of
`Clean(p)`: the byte test with its boundary check agrees with the element-wise one. -/
theorem hasPrefix_elems (p pref : String) (hp : p.data.head? = some '/')
    (hpref : pref.data.head? = some '/') :
    hasPrefix p pref = true ↔ elems (clean pref) <+: elems (clean p) := by
  obtain ⟨rest, rfl⟩ := rooted_iff.mp hp
  obtain ⟨prest, rfl⟩ := rooted_iff.mp hpref
  rw [hasPrefix_rooted, clean_rooted, clean_rooted, elems_names (cleanElems_isName _),
    elems_names (cleanElems_isName _), prefix_map_mk_iff]

/-- `/a` is not a prefix path of `/ab`. -/
theorem hasPrefix_elems_ab :
    (hasPrefix "/ab" "/a" = true ↔ elems (clean "/a") <+: elems (clean "/ab")) :=
  hasPrefix_elems "/ab" "/a" (by decide) (by decide)

/-! ### `Path` and `Elems` -/

/-- `Path` cleans `/` followed by its elements joined with `/`. -/
theorem path_eq (es : List String) :
    path es = clean ⟨'/' :: ['/'].intercalate (es.map String.data)⟩ := by
  simp only [path]
  congr 1
  exact String.ext (by simp [String.data_append, data_intercalate])

/-- **`Elems` and `Path` are inverse.** For a list of strings each non-empty, without `/` and
neither `.` nor `..` (`IsName`), `Elems(Path(es...))` is the list; and for a path `p` that
begins with `/`, `Path(Elems(p)...)` is `Clean(p)`. -/
theorem elems_path :
    (∀ es : List String, (∀ e ∈ es, IsName e.data) → elems (path es) = es) ∧
    ∀ p : String, p.data.head? = some '/' → path (elems p) = clean p := by
  refine ⟨fun es h => ?_, fun p hp => ?_⟩
  · have h' : ∀ e ∈ es.map String.data, IsName e := by simpa using h
    rw [path_eq, clean_names h', elems_names h', List.map_map]
    simp [Function.comp_def]
  · obtain ⟨rest, rfl⟩ := rooted_iff.mp hp
    rcases rest with _ | ⟨c, rest⟩
    · decide
    · have hne : ¬((⟨'/' :: c :: rest⟩ : String) = "/" ∨ (⟨'/' :: c :: rest⟩ : String) = "") := by
        simp [mk_eq_root, mk_ne_empty]
      rw [path_eq, elems, if_neg hne]
      simp [Function.comp_def, List.intercalate_splitOn]

theorem elems_path_ab : elems (path ["a", "b"]) = ["a", "b"] :=
  elems_path.1 ["a", "b"] (by decide)

/-! ### `Suffix` -/

/-- `Suffix`'s tests after cleaning, once the prefix is not `/`: a suffix exactly when the
prefix is a prefix of the path ending where it ends or at a `/`. -/
theorem suffix_test (P Q : List Char) :
    (if P.length < Q.length then "" else if !Q.isPrefixOf P then ""
      else if P.length = Q.length then "/" else if P[Q.length]? != some '/' then ""
      else (⟨P.drop Q.length⟩ : String)) =
    if Q <+: P ∧ (P.length = Q.length ∨ P[Q.length]? = some '/') then
      (if P.length = Q.length then "/" else ⟨P.drop Q.length⟩) else "" := by
  by_cases hq : Q <+: P
  · have h₁ : ¬P.length < Q.length := not_lt.mpr hq.length_le
    have h₂ : Q.isPrefixOf P = true := List.isPrefixOf_iff_prefix.mpr hq
    by_cases h₃ : P.length = Q.length <;> by_cases h₄ : P[Q.length]? = some '/' <;>
      simp [h₁, h₂, h₃, h₄, hq]
  · have h₂ : Q.isPrefixOf P = false := by
      simpa [← List.isPrefixOf_iff_prefix] using hq
    simp [h₂, hq]

/-- `Suffix` on absolute paths: all of `Clean(p)` for a prefix that cleans to `/`, and
otherwise the test of `suffix_test` on the cleaned paths. -/
theorem suffix_rooted (rest prest : List Char) :
    suffix ⟨'/' :: rest⟩ ⟨'/' :: prest⟩ =
      if cleanElems prest = [] then ⟨'/' :: ['/'].intercalate (cleanElems rest)⟩
      else
        let P := '/' :: ['/'].intercalate (cleanElems rest)
        let Q := '/' :: ['/'].intercalate (cleanElems prest)
        if Q <+: P ∧ (P.length = Q.length ∨ P[Q.length]? = some '/') then
          (if P.length = Q.length then "/" else ⟨P.drop Q.length⟩) else "" := by
  have hfs := cleanElems_isName prest
  have h₀ : (⟨'/' :: rest⟩ : String).data.length ≠ 0 := by simp
  have hdot : (⟨'/' :: ['/'].intercalate (cleanElems prest)⟩ : String) ≠ "." := by
    simp [String.ext_iff, show ("." : String).data = ['.'] from rfl]
  simp only [suffix, if_neg h₀, if_neg (mk_ne_empty prest), clean_rooted, List.head?_cons, bne_self_eq_false,
    Bool.false_eq_true, if_false, hdot, false_or, mk_eq_root, intercalate_eq_nil hfs]
  by_cases hf : cleanElems prest = []
  · rw [if_pos hf, if_pos hf]
  · rw [if_neg hf, if_neg hf]
    exact suffix_test _ _

/-- The names of a cleaned prefix followed by what comes after it in a cleaned path fold back
into the path's names. -/
theorem cleanFrom_rejoin {es fs : List (List Char)} {r : List Char}
    (hes : ∀ e ∈ es, IsName e) (hfs : ∀ f ∈ fs, IsName f)
    (h : ['/'].intercalate es = ['/'].intercalate fs ++ r) (hr : atSep '/' r = true) :
    cleanFrom fs.reverse r = es.reverse := by
  rcases r with _ | ⟨c, r⟩
  · rw [List.append_nil] at h
    rw [cleanFrom_nil, ← List.append_nil fs.reverse, ← cleanFrom_names hfs, ← h,
      cleanFrom_names hes, List.append_nil]
  · obtain rfl : c = '/' := by simpa using hr
    rw [cleanFrom_sep, ← List.append_nil fs.reverse, ← cleanFrom_names hfs, ← cleanFrom_append,
      ← h, cleanFrom_names hes, List.append_nil]

/-- `Path(pref, s)` for a `pref` that begins with `/`: the names of `s` folded onto the names
of `Clean(pref)`. -/
theorem path_pair (prest : List Char) (s : String) :
    path [⟨'/' :: prest⟩, s] =
      ⟨'/' :: ['/'].intercalate (cleanFrom (cleanElems prest).reverse s.data).reverse⟩ := by
  rw [path_eq, show ['/'].intercalate ([⟨'/' :: prest⟩, s].map String.data) =
    '/' :: (prest ++ '/' :: s.data) by simp [intercalate_cons_cons], clean_rooted, cleanElems,
    cleanFrom_sep, cleanFrom_append, cleanElems, List.reverse_reverse]

/-- **Splitting a path at a prefix and joining it back.** For paths `p` and `pref` that begin
with `/`, `Suffix(p, pref)` is non-empty exactly when `HasPrefix(p, pref)`; and then it begins
with `/`, and `Path(pref, Suffix(p, pref))` is `Clean(p)`. -/
theorem suffix_rejoin (p pref : String) (hp : p.data.head? = some '/')
    (hpref : pref.data.head? = some '/') :
    (suffix p pref ≠ "" ↔ hasPrefix p pref = true) ∧
    (suffix p pref ≠ "" →
      (suffix p pref).data.head? = some '/' ∧ path [pref, suffix p pref] = clean p) := by
  obtain ⟨rest, rfl⟩ := rooted_iff.mp hp
  obtain ⟨prest, rfl⟩ := rooted_iff.mp hpref
  have hes := cleanElems_isName rest
  have hfs := cleanElems_isName prest
  rw [suffix_rooted, hasPrefix_rooted, clean_rooted]
  by_cases hf : cleanElems prest = []
  · -- a prefix that cleans to `/`: the suffix is all of `Clean(p)`
    rw [if_pos hf, path_pair, hf]
    refine ⟨by simp [mk_ne_empty], fun _ => ⟨rfl, ?_⟩⟩
    rw [List.reverse_nil, cleanFrom_sep, cleanFrom_names hes, List.append_nil, List.reverse_reverse]
  rw [if_neg hf]
  dsimp only
  set P := '/' :: ['/'].intercalate (cleanElems rest) with hP
  set Q := '/' :: ['/'].intercalate (cleanElems prest) with hQ
  by_cases hc : Q <+: P ∧ (P.length = Q.length ∨ P[Q.length]? = some '/')
  · obtain ⟨r, hr, hsep⟩ := rooted_test_iff.mp hc
    have hPQ : P = Q ++ r := by simp [hP, hQ, hr]
    rw [if_pos hc, iff_true_right ((rooted_test_iff_prefixes hes hfs hf).mp hc), path_pair]
    by_cases hl : P.length = Q.length
    · -- the same path: the suffix is `/`
      obtain rfl : r = [] := by simpa [hPQ] using hl
      rw [if_pos hl]
      refine ⟨by decide, fun _ => ⟨rfl, ?_⟩⟩
      rw [show ("/" : String).data = '/' :: [] from rfl, cleanFrom_sep,
        cleanFrom_rejoin hes hfs hr hsep, List.reverse_reverse]
    · -- the rest of the path after the prefix, which starts with `/`
      rw [if_neg hl, hPQ, List.drop_left]
      obtain ⟨c, r, rfl⟩ : ∃ c r', r = c :: r' := List.exists_cons_of_ne_nil
        (by rintro rfl; simp [hPQ] at hl)
      obtain rfl : c = '/' := by simpa using hsep
      refine ⟨by simp [mk_ne_empty], fun _ => ⟨rfl, ?_⟩⟩
      rw [cleanFrom_rejoin hes hfs hr hsep, List.reverse_reverse]
      exact congrArg String.mk (hP.symm.trans hPQ)
  · -- not a prefix path: no suffix
    rw [if_neg hc]
    simp only [ne_eq, not_true_eq_false, false_iff, IsEmpty.forall_iff, and_true]
    exact fun h => hc ((rooted_test_iff_prefixes hes hfs hf).mpr h)

/-- `/a/b` split at `/a` and joined back. -/
theorem suffix_rejoin_ab :
    (suffix "/a/b" "/a" ≠ "" ↔ hasPrefix "/a/b" "/a" = true) ∧
    (suffix "/a/b" "/a" ≠ "" → (suffix "/a/b" "/a").data.head? = some '/' ∧
      path ["/a", suffix "/a/b" "/a"] = clean "/a/b") :=
  suffix_rejoin "/a/b" "/a" (by decide) (by decide)

/-! ### `PathCmp` -/

/-- One step of `PathCmp`'s loop: `≤ 0` when the first elements are in order, or equal with the
rest in order. -/
theorem cmpElems_cons_nonpos {x y : String} {a b : List String} :
    cmpElems (x :: a) (y :: b) ≤ 0 ↔ x.data < y.data ∨ (x.data = y.data ∧ cmpElems a b ≤ 0) := by
  simp only [cmpElems]
  rcases lt_trichotomy x.data y.data with h | h | h
  · simp [h]
  · simp [h]
  · simp [h, lt_asymm h, ne_of_gt h]

/-- Swapping the paths negates the comparison. -/
theorem cmpElems_swap : ∀ a b : List String, cmpElems b a = -cmpElems a b
  | [], [] | [], _ :: _ | _ :: _, [] => rfl
  | x :: a, y :: b => by
    simp only [cmpElems]
    rcases lt_trichotomy x.data y.data with h | h | h
    · simp [h, lt_asymm h]
    · simp [h, cmpElems_swap a b]
    · simp [h, lt_asymm h]

/-- The comparison ties exactly on equal element lists. -/
theorem cmpElems_eq_zero : ∀ a b : List String, cmpElems a b = 0 ↔ a = b
  | [], [] | [], _ :: _ | _ :: _, [] => by simp [cmpElems]
  | x :: a, y :: b => by
    simp only [cmpElems]
    rcases lt_trichotomy x.data y.data with h | h | h
    · have hxy : x ≠ y := by rintro rfl; exact lt_irrefl _ h
      simp [h, hxy]
    · obtain rfl : x = y := String.ext h
      simp [cmpElems_eq_zero a b]
    · have hxy : x ≠ y := by rintro rfl; exact lt_irrefl _ h
      simp [h, lt_asymm h, hxy]

theorem cmpElems_trans : ∀ a b c : List String,
    cmpElems a b ≤ 0 → cmpElems b c ≤ 0 → cmpElems a c ≤ 0
  | [], _, [], _, _ | [], _, _ :: _, _, _ => by simp [cmpElems]
  | _ :: _, [], _, h, _ | _ :: _, _ :: _, [], _, h => by simp [cmpElems] at h
  | x :: a, y :: b, z :: c, hab, hbc => by
    rw [cmpElems_cons_nonpos] at hab hbc ⊢
    rcases hab with hxy | ⟨hxy, hab⟩ <;> rcases hbc with hyz | ⟨hyz, hbc⟩
    · exact .inl (lt_trans hxy hyz)
    · exact .inl (hyz ▸ hxy)
    · exact .inl (hxy ▸ hyz)
    · exact .inr ⟨hxy.trans hyz, cmpElems_trans a b c hab hbc⟩

/-- A list sorts no later than a list it is a prefix of. -/
theorem cmpElems_of_prefix : ∀ {d x : List String}, d <+: x → cmpElems d x ≤ 0
  | [], [], _ | [], _ :: _, _ => by simp [cmpElems]
  | _ :: _, [], h => absurd h.length_le (by simp)
  | e :: d, u :: x, h => by
    obtain ⟨rfl, h'⟩ := List.cons_prefix_cons.mp h
    exact cmpElems_cons_nonpos.mpr (.inr ⟨rfl, cmpElems_of_prefix h'⟩)

/-- **What sorts between a list and a list it is a prefix of has it as a prefix too.** -/
theorem cmpElems_between : ∀ {d x y : List String},
    cmpElems d x ≤ 0 → cmpElems x y ≤ 0 → d <+: y → d <+: x
  | [], _, _, _, _, _ => List.nil_prefix
  | _ :: _, [], _, hdx, _, _ => by simp [cmpElems] at hdx
  | _ :: _, _ :: _, [], _, _, hy => absurd hy.length_le (by simp)
  | e :: d, u :: x, v :: y, hdx, hxy, hy => by
    obtain ⟨rfl, hy'⟩ := List.cons_prefix_cons.mp hy
    rw [cmpElems_cons_nonpos] at hdx hxy
    rcases hdx with hdx | ⟨hdx, hdx'⟩ <;> rcases hxy with hxy | ⟨hxy, hxy'⟩
    · exact absurd (lt_trans hdx hxy) (lt_irrefl _)
    · exact absurd (hxy ▸ hdx) (lt_irrefl _)
    · exact absurd (hdx ▸ hxy) (lt_irrefl _)
    · obtain rfl : e = u := String.ext hdx
      exact List.cons_prefix_cons.mpr ⟨rfl, cmpElems_between hdx' hxy' hy'⟩

/-- On clean absolute paths, `HasPrefix` is element-wise prefix of `Elems`. -/
theorem hasPrefix_of_clean {p pref : String} (hp : clean p = p) (hpr : p.data.head? = some '/')
    (hq : clean pref = pref) (hqr : pref.data.head? = some '/') :
    hasPrefix p pref = true ↔ elems pref <+: elems p := by
  obtain ⟨rest, rfl⟩ := rooted_iff.mp hpr
  obtain ⟨prest, rfl⟩ := rooted_iff.mp hqr
  rw [hasPrefix_rooted, ← hp, ← hq, clean_rooted, clean_rooted,
    elems_names (cleanElems_isName _), elems_names (cleanElems_isName _), prefix_map_mk_iff]

/-- **`PathCmp` orders paths.** Swapping its arguments negates it, it is `0` exactly on paths
with the same elements, and `≤ 0` is transitive. On clean absolute paths a directory `d` sorts
no later than a path `x` under it, and a path `x` that sorts between `d` and a path `y` under
`d` (`PathCmp(d, x) ≤ 0 ≤ PathCmp(y, x)`) is under `d` as well. -/
theorem pathCmp_order :
    (∀ a b, pathCmp a b = -pathCmp b a) ∧
    (∀ a b, pathCmp a b = 0 ↔ elems a = elems b) ∧
    (∀ a b c, pathCmp a b ≤ 0 → pathCmp b c ≤ 0 → pathCmp a c ≤ 0) ∧
    ∀ d x y, clean d = d → d.data.head? = some '/' → clean x = x → x.data.head? = some '/' →
      clean y = y → y.data.head? = some '/' →
      (hasPrefix x d = true → pathCmp d x ≤ 0) ∧
      (hasPrefix y d = true → pathCmp d x ≤ 0 → 0 ≤ pathCmp y x → hasPrefix x d = true) := by
  refine ⟨fun a b => cmpElems_swap _ _, fun a b => cmpElems_eq_zero _ _,
    fun a b c => cmpElems_trans _ _ _, fun d x y hd hdr hx hxr hy hyr => ⟨fun h => ?_, ?_⟩⟩
  · exact cmpElems_of_prefix ((hasPrefix_of_clean hx hxr hd hdr).mp h)
  · intro hyd hdx hyx
    have hxy : pathCmp x y ≤ 0 := by
      rw [pathCmp, cmpElems_swap]; unfold pathCmp at hyx; omega
    exact (hasPrefix_of_clean hx hxr hd hdr).mpr (cmpElems_between hdx hxy
      ((hasPrefix_of_clean hy hyr hd hdr).mp hyd))

/-- `/a/b` lies between `/a` and `/a/c`. -/
theorem pathCmp_between_ab :
    (hasPrefix "/a/b" "/a" = true → pathCmp "/a" "/a/b" ≤ 0) ∧
    (hasPrefix "/a/c" "/a" = true → pathCmp "/a" "/a/b" ≤ 0 → 0 ≤ pathCmp "/a/c" "/a/b" →
      hasPrefix "/a/b" "/a" = true) :=
  pathCmp_order.2.2.2 "/a" "/a/b" "/a/c" (by decide) (by decide) (by decide) (by decide)
    (by decide) (by decide)

/-- With `x` sorting after `y` instead of before it, `x` need not be under `d`: `/z` sorts after
both `/a` and `/a/b`, and `/a/b` is under `/a`, but `/z` is not. -/
theorem pathCmp_after_subtree :
    clean "/a" = "/a" ∧ clean "/z" = "/z" ∧ clean "/a/b" = "/a/b" ∧
    hasPrefix "/a/b" "/a" = true ∧ pathCmp "/a" "/z" ≤ 0 ∧ 0 ≤ pathCmp "/z" "/a/b" ∧
    hasPrefix "/z" "/a" = false := by
  decide

end Zx
