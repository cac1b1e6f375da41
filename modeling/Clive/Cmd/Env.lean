import Clive.Strings

/-!
# The environment encodings of `cmd`

Clive commands keep lists and maps in environment variables, as single strings. A list is its
elements joined with `\b` (`ListEnv`); rc writes lists with `\001`, which `EnvList` reads as
`\b`, and the empty value is the empty list. A map is a sequence of entries, each a `\a`
followed by the list of the entry's name and values (`MapEnv`); `EnvMap` splits at `\a`, drops
what stands before the first one, and reads each entry back as a list, skipping the entries
that read as no list at all. `IsEnvMap` tells a map value by its `\a`. `Path` reads the command
search path from the list variable `path`, or else from `PATH` split at `:`.

Go's map iteration order is unspecified, so `mapEnv` takes the entries in whatever order
`range` visits them, and the map `envMap` reads back is a lookup function.

## Main results

* `listEnv_envList`: reading any value as a list and writing it back gives the value, with
  rc's separators turned into `\b`;
* `envList_listEnv`: for elements without separators, a list written and read back is itself
  exactly when it is not the one-element list `[""]`;
* `envMap_mapEnv`: for names and values without separators, in every iteration order, a map
  written and read back is itself exactly when it has no entry of empty name and no values;
* `isEnvMap_formats`: a written list never looks like a map, and a written map does when it
  has an entry;
* `path_fallback`: `Path` never returns its default list.
-/

namespace Cmd

open Strings

/-! ### The encodings -/

/-- `\001`, the separator rc writes between the elements of a list. -/
def rcSep : Char := '\x01'

/-- `\b`, the separator `ListEnv` writes between the elements of a list. -/
def listSep : Char := '\x08'

/-- `\a`, which starts each entry of a map written by `MapEnv`. -/
def mapSep : Char := '\x07'

/-- `strings.Replace(s, old, new, -1)` for one-character `old` and `new`. -/
def replaceAll (old new : Char) (s : List Char) : List Char :=
  s.map fun c => if c = old then new else c

/-- `EnvList`: the elements of a list value. -/
def envList (val : String) : List String :=
  if val = "" then []
  else ((replaceAll rcSep listSep val.data).splitOn listSep).map String.mk

/-- `ListEnv`: a list written as a value. -/
def listEnv (lst : List String) : String :=
  "\x08".intercalate lst

/-- Go's `m[k] = v` on a map read as a lookup. -/
def setKey (m : String → Option (List String)) (k : String) (v : List String) :
    String → Option (List String) :=
  fun x => if x = k then some v else m x

/-- One iteration of `EnvMap`'s loop: the token read as a list binds its first element to the
rest, and a token that reads as no list is skipped. -/
def envMapStep (m : String → Option (List String)) (t : String) :
    String → Option (List String) :=
  match envList t with
  | [] => m
  | k :: v => setKey m k v

/-- `EnvMap`: a map value read back. -/
def envMap (env : String) : String → Option (List String) :=
  if env = "" then fun _ => none
  else
    let toks := (env.data.splitOn mapSep).map String.mk
    let toks := if toks.length > 0 then toks.drop 1 else toks
    toks.foldl envMapStep fun _ => none

/-- `MapEnv`: the entries of a map, in the order `range` visits them, written as a value. -/
def mapEnv (m : List (String × List String)) : String :=
  m.foldl (fun s kv => s ++ "\x07" ++ listEnv (kv.1 :: kv.2)) ""

/-- `IsEnvMap`: `strings.ContainsRune(value, '\a')`. -/
def isEnvMap (value : String) : Bool :=
  decide (mapSep ∈ value.data)

/-- `Path`: the command search path. `getEnv` is the context's `GetEnv`. -/
def path (getEnv : String → String) : List String :=
  let pval := envList (getEnv "path")
  let pval := if pval.length = 0 then ((getEnv "PATH").data.splitOn ':').map String.mk else pval
  if pval.length = 0 then ["/bin", "/usr/bin", "."] else pval

example : envList "a\x01b\x08c" = ["a", "b", "c"] := by decide

/-! ### Lists -/

/-- A string in which none of the three separators occurs. -/
def SepFree (s : String) : Prop :=
  rcSep ∉ s.data ∧ listSep ∉ s.data ∧ mapSep ∉ s.data

instance : DecidablePred SepFree := fun s =>
  inferInstanceAs (Decidable (rcSep ∉ s.data ∧ listSep ∉ s.data ∧ mapSep ∉ s.data))

theorem replaceAll_of_not_mem {old new : Char} {s : List Char} (h : old ∉ s) :
    replaceAll old new s = s :=
  (List.map_congr_left fun c hc => if_neg (by rintro rfl; exact h hc)).trans (List.map_id _)

theorem listEnv_data (lst : List String) :
    (listEnv lst).data = [listSep].intercalate (lst.map String.data) :=
  data_intercalate _ _

theorem empty_iff {s : String} : s = "" ↔ s.data = [] := by
  rw [String.ext_iff]

/-- A list writes as the empty value only when it is empty or the empty string alone. -/
theorem listEnv_eq_empty {lst : List String} : listEnv lst = "" ↔ lst = [] ∨ lst = [""] := by
  rw [empty_iff, listEnv_data]
  rcases lst with _ | ⟨a, _ | ⟨b, l⟩⟩
  · simp
  · simp [empty_iff]
  · simp [intercalate_cons_cons]

/-- **Reading a value as a list and writing it back** gives the value with rc's separators
turned into `\b`. -/
theorem listEnv_envList (val : String) :
    listEnv (envList val) = ⟨replaceAll rcSep listSep val.data⟩ := by
  unfold envList
  split_ifs with h
  · subst h; rfl
  · apply String.ext
    rw [listEnv_data, List.map_map, show String.data ∘ String.mk = id from rfl, List.map_id]
    exact List.intercalate_splitOn _ listSep

/-- No separator occurs in a list written from separator-free elements but its own. -/
theorem not_mem_listEnv {lst : List String} {c : Char}
    (hc : c ≠ listSep) (hce : ∀ e ∈ lst, c ∉ e.data) : c ∉ (listEnv lst).data := by
  rw [listEnv_data]
  intro hm
  rcases mem_intercalate hm with hm | ⟨t, ht, hm⟩
  · exact hc (List.mem_singleton.mp hm)
  · obtain ⟨e, he, rfl⟩ := List.mem_map.mp ht
    exact hce e he hm

/-- A non-empty written list of separator-free elements reads back as itself. -/
theorem envList_listEnv_of_ne {lst : List String} (h : ∀ e ∈ lst, SepFree e)
    (hne : listEnv lst ≠ "") : envList (listEnv lst) = lst := by
  have hl : lst.map String.data ≠ [] := by
    simpa using fun e => hne (listEnv_eq_empty.mpr (.inl e))
  rw [envList, if_neg hne, replaceAll_of_not_mem (not_mem_listEnv (by decide)
    fun e he => (h e he).1), listEnv_data, List.splitOn_intercalate _ _
    (fun l hl => by obtain ⟨e, he, rfl⟩ := List.mem_map.mp hl; exact (h e he).2.1) hl,
    List.map_map, show String.mk ∘ String.data = id from rfl, List.map_id]

/-- **A written list reads back as itself**, for separator-free elements, exactly when it is not
the list of the empty string alone, which writes as the empty value and reads back as `[]`. -/
theorem envList_listEnv (lst : List String) (h : ∀ e ∈ lst, SepFree e) :
    envList (listEnv lst) = lst ↔ lst ≠ [""] := by
  by_cases hne : listEnv lst = ""
  · rcases listEnv_eq_empty.mp hne with rfl | rfl <;> decide
  · refine iff_of_true (envList_listEnv_of_ne h hne) fun e => hne ?_
    rw [e]; rfl

theorem envList_listEnv_ab : envList (listEnv ["a", "b"]) = ["a", "b"] ↔ ["a", "b"] ≠ [""] :=
  envList_listEnv ["a", "b"] (by decide)

example : envList (listEnv [""]) = [] := by decide

/-! ### Maps -/

/-- `MapEnv` on characters: each entry is `\a` followed by its written list. -/
theorem mapEnv_data (m : List (String × List String)) :
    (mapEnv m).data =
      ((m.map fun kv => (listEnv (kv.1 :: kv.2)).data).map (mapSep :: ·)).flatten := by
  suffices h : ∀ s, (m.foldl (fun s kv => s ++ "\x07" ++ listEnv (kv.1 :: kv.2)) s).data =
      s.data ++ ((m.map fun kv => (listEnv (kv.1 :: kv.2)).data).map (mapSep :: ·)).flatten from
    h ""
  induction m with
  | nil => simp
  | cons kv m ih =>
    intro s
    rw [List.foldl_cons, ih]
    simp [String.data_append, mapSep]

/-- The tokens `EnvMap` reads from a written map are the entries' written lists. -/
theorem envMap_mapEnv_eq (m : List (String × List String))
    (h : ∀ kv ∈ m, ∀ s ∈ kv.1 :: kv.2, SepFree s) :
    envMap (mapEnv m) =
      (m.map fun kv => listEnv (kv.1 :: kv.2)).foldl envMapStep fun _ => none := by
  rcases m with _ | ⟨kv, m⟩
  · rfl
  have hsep : ∀ f ∈ (kv :: m).map fun kv => (listEnv (kv.1 :: kv.2)).data, mapSep ∉ f := by
    simp only [List.mem_map]
    rintro _ ⟨kv', hkv', rfl⟩
    exact not_mem_listEnv (by decide) fun e he => (h kv' hkv' e he).2.2
  have hne : mapEnv (kv :: m) ≠ "" := by
    rw [Ne, empty_iff, mapEnv_data]
    simp
  rw [envMap, if_neg hne, mapEnv_data, splitOn_flatten_cons hsep]
  simp only [List.map_cons, List.length_cons, gt_iff_lt, Nat.succ_pos, if_true, List.drop_one,
    List.tail_cons, List.map_map]
  rfl

/-- A token that is a written entry binds the entry's name to its values, unless the entry is
the empty name with no values, which writes as the empty list. -/
theorem envMapStep_listEnv (mp : String → Option (List String)) {k : String} {v : List String}
    (h : ∀ s ∈ k :: v, SepFree s) :
    envMapStep mp (listEnv (k :: v)) = if (k, v) = ("", []) then mp else setKey mp k v := by
  split_ifs with hkv
  · simp only [Prod.mk.injEq] at hkv
    obtain ⟨rfl, rfl⟩ := hkv
    rfl
  · have hne : listEnv (k :: v) ≠ "" := by
      rw [Ne, listEnv_eq_empty]
      rintro (h' | h')
      · cases h'
      · exact hkv (by simp_all)
    rw [envMapStep, envList_listEnv_of_ne h hne]

/-- `EnvMap`'s loop over written entries binds the entries but the empty one, in order. -/
theorem foldl_envMapStep (m : List (String × List String))
    (h : ∀ kv ∈ m, ∀ s ∈ kv.1 :: kv.2, SepFree s) (mp : String → Option (List String)) :
    (m.map fun kv => listEnv (kv.1 :: kv.2)).foldl envMapStep mp =
      (m.filter (· ≠ ("", []))).foldl (fun mp kv => setKey mp kv.1 kv.2) mp := by
  induction m generalizing mp with
  | nil => rfl
  | cons kv m ih =>
    have ih' := ih (fun kv' hkv' => h kv' (List.mem_cons_of_mem _ hkv'))
    rw [List.map_cons, List.foldl_cons, envMapStep_listEnv mp (h kv (List.mem_cons_self _ _)),
      List.filter_cons]
    by_cases hkv : kv = ("", [])
    · simp [hkv, ih']
    · simp [hkv, ih']

/-- Binding the entries of a map with distinct names, in order: a name is bound to its entry's
values, and the others keep their old binding. -/
theorem foldl_setKey {m : List (String × List String)} (hm : (m.map Prod.fst).Nodup)
    (mp : String → Option (List String)) (k : String) (v : List String) :
    (m.foldl (fun mp kv => setKey mp kv.1 kv.2) mp) k = some v ↔
      (k, v) ∈ m ∨ (k ∉ m.map Prod.fst ∧ mp k = some v) := by
  induction m generalizing mp with
  | nil => simp
  | cons kv m ih =>
    obtain ⟨k', v'⟩ := kv
    simp only [List.map_cons, List.nodup_cons] at hm
    rw [List.foldl_cons, ih hm.2]
    by_cases hk : k = k'
    · subst hk
      have hnot : ∀ w, (k, w) ∉ m := fun w hw => hm.1 (List.mem_map.mpr ⟨_, hw, rfl⟩)
      simp [setKey, hnot, hm.1, eq_comm]
    · simp [setKey, hk]

/-- **A written map reads back as itself.** For names and values without separators and in
every order `range` visits the entries, the map `EnvMap` reads back from `MapEnv(m)` holds
exactly the entries of `m`, but an entry of empty name and no values, which is lost. -/
theorem envMap_mapEnv (m : List (String × List String)) (hm : (m.map Prod.fst).Nodup)
    (h : ∀ kv ∈ m, ∀ s ∈ kv.1 :: kv.2, SepFree s) (k : String) (v : List String) :
    envMap (mapEnv m) k = some v ↔ (k, v) ∈ m ∧ (k, v) ≠ ("", []) := by
  have hf : ((m.filter (· ≠ ("", []))).map Prod.fst).Nodup :=
    hm.sublist ((List.filter_sublist m).map _)
  rw [envMap_mapEnv_eq m h, foldl_envMapStep m h, foldl_setKey hf]
  simp [List.mem_filter, Decidable.imp_iff_not_or]

theorem envMap_mapEnv_path :
    envMap (mapEnv [("path", ["/bin", "."]), ("", [])]) "path" = some ["/bin", "."] ↔
      ("path", ["/bin", "."]) ∈ [("path", ["/bin", "."]), ("", [])] ∧
        ("path", ["/bin", "."]) ≠ ("", []) :=
  envMap_mapEnv _ (by decide) (by decide) "path" ["/bin", "."]

/-! ### Telling the formats apart -/

/-- **`IsEnvMap` tells the formats apart**: a list written from elements without `\a` is never
taken for a map, and a written map is exactly when it has an entry. -/
theorem isEnvMap_formats :
    (∀ lst : List String, (∀ e ∈ lst, mapSep ∉ e.data) →
        isEnvMap (listEnv lst) = false) ∧
      ∀ m : List (String × List String), isEnvMap (mapEnv m) = true ↔ m ≠ [] := by
  refine ⟨fun lst h => decide_eq_false (not_mem_listEnv (by decide) h), fun m => ?_⟩
  rcases m with _ | ⟨kv, m⟩
  · decide
  · simp [isEnvMap, mapEnv_data]

theorem isEnvMap_formats_ab : isEnvMap (listEnv ["a", "b"]) = false :=
  isEnvMap_formats.1 ["a", "b"] (by decide)

/-! ### The search path -/

/-- **`Path` never returns its default**: `strings.Split` never gives an empty list, so with no
`path` list the result is `PATH` split at `:`, which is `[""]` when `PATH` is unset. -/
theorem path_fallback (getEnv : String → String) :
    path getEnv = if envList (getEnv "path") = [] then
      ((getEnv "PATH").data.splitOn ':').map String.mk else envList (getEnv "path") := by
  have hs : (getEnv "PATH").data.splitOn ':' ≠ [] := List.splitOnP_ne_nil _ _
  by_cases hp : envList (getEnv "path") = [] <;> simp [path, hp, hs]

example : path (fun _ => "") = [""] := by decide

end Cmd
