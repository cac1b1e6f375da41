import Clive.Strings

/-!
# Dial addresses

A dial address is `network!host!port!tree`. `fillAddr` completes a shorter address with the
defaults `tcp`, `zx` and `main`; `splitaddr` cuts the tree name off at the last `!`, which is
where `Dial` finds the connection address and the tree to select. A filled address always has a
`!`, so `splitaddr`'s panic is never reached from `Dial` (`splitaddr_fillAddr_isSome`).

Addresses are split on their characters: `strings.Split(addr, "!")` is `List.splitOn` and
`strings.LastIndexByte(addr, '!')` is `lastIndexByte`, both structural, so a dial of a
concrete address can be evaluated.
-/

namespace Rzx

open Strings

/-- `FillAddr`: `network!host!port!tree` from `addr`, by its number of `!`-separated tokens:
`host` is `tcp!host!zx!main`, `host!port` is `tcp!host!port!main`, `net!host!port` is
`net!host!port!main`, and four tokens or more are left alone. -/
def fillAddr (addr : String) : String :=
  match addr.data.splitOn '!' with
  | [h] => "tcp!" ++ String.mk h ++ "!zx!main"
  | [h, p] => "tcp!" ++ String.mk h ++ "!" ++ String.mk p ++ "!main"
  | [_, _, _] => addr ++ "!main"
  | _ => addr

/-- `strings.LastIndexByte(s, c)`: the index of the last `c` in `s`. -/
def lastIndexByte : List Char → Char → Option Nat
  | [], _ => none
  | x :: xs, c =>
    match lastIndexByte xs c with
    | some n => some (n + 1)
    | none => if x = c then some 0 else none

/-- `splitaddr`: the address before the last `!` and the tree name after it. `none` is the
`panic("bad address")` of an address with no `!`. -/
def splitaddr (addr : String) : Option (String × String) :=
  (lastIndexByte addr.data '!').map fun n =>
    (String.mk (addr.data.take n), String.mk (addr.data.drop (n + 1)))

/-- `lastIndexByte` finds every byte the string has. -/
theorem lastIndexByte_isSome {l : List Char} {c : Char} (h : c ∈ l) :
    (lastIndexByte l c).isSome := by
  induction l with
  | nil => cases h
  | cons x xs ih =>
    unfold lastIndexByte
    by_cases hx : c ∈ xs
    · obtain ⟨n, hn⟩ := Option.isSome_iff_exists.mp (ih hx)
      simp [hn]
    · obtain rfl : c = x := (List.mem_cons.mp h).resolve_right hx
      cases lastIndexByte xs c <;> simp

/-- A filled address has a `!`: the defaults bring one, and an address left alone has at least
four tokens. -/
theorem bang_mem_fillAddr (addr : String) : '!' ∈ (fillAddr addr).data := by
  unfold fillAddr
  split
  · simp [String.data_append]
  · simp
  · simp
  · rename_i hone _ _
    by_contra h
    exact hone _ (List.splitOnP_eq_single (· == '!') addr.data fun x hx => by
      simpa using ne_of_mem_of_not_mem hx h)

/-- `splitaddr` never panics on a filled address, so `Dial` never does. -/
theorem splitaddr_fillAddr_isSome (addr : String) : (splitaddr (fillAddr addr)).isSome := by
  simpa [splitaddr] using lastIndexByte_isSome (bang_mem_fillAddr addr)

/-- **A filled address has at least four tokens**, and its last one is `main` when the address
had at most three. -/
theorem splitOn_fillAddr (addr : String) :
    4 ≤ ((fillAddr addr).data.splitOn '!').length ∧
    ((addr.data.splitOn '!').length ≤ 3 →
      ((fillAddr addr).data.splitOn '!').getLast? = some "main".data) := by
  unfold fillAddr
  split
  · rename_i h heq
    have hh : '!' ∉ h := not_mem_of_mem_splitOn (show h ∈ addr.data.splitOn '!' by simp [heq])
    have hs : ("tcp!" ++ String.mk h ++ "!zx!main").data.splitOn '!' =
        ["tcp".data, h, "zx".data, "main".data] := by
      rw [show ("tcp!" ++ String.mk h ++ "!zx!main").data =
        "tcp".data ++ '!' :: (h ++ '!' :: ("zx".data ++ '!' :: "main".data)) from rfl,
        splitOn_append_cons, splitOn_append_cons, splitOn_append_cons, splitOn_of_not_mem hh]
      rfl
    rw [hs]; simp
  · rename_i h p heq
    have hh : '!' ∉ h := not_mem_of_mem_splitOn (show h ∈ addr.data.splitOn '!' by simp [heq])
    have hp : '!' ∉ p := not_mem_of_mem_splitOn (show p ∈ addr.data.splitOn '!' by simp [heq])
    have hs : ("tcp!" ++ String.mk h ++ "!" ++ String.mk p ++ "!main").data.splitOn '!' =
        ["tcp".data, h, p, "main".data] := by
      rw [show ("tcp!" ++ String.mk h ++ "!" ++ String.mk p ++ "!main").data =
        "tcp".data ++ '!' :: (h ++ '!' :: (p ++ '!' :: "main".data)) by
          simp only [String.data_append, List.append_assoc]; rfl,
        splitOn_append_cons, splitOn_append_cons, splitOn_append_cons, splitOn_of_not_mem hh,
        splitOn_of_not_mem hp]
      rfl
    rw [hs]; simp
  · rename_i heq
    rw [show (addr ++ "!main").data = addr.data ++ '!' :: "main".data from rfl,
      splitOn_append_cons, heq]
    simp [splitOn_of_not_mem (show '!' ∉ "main".data by decide)]
  · rename_i h₁ h₂ h₃
    have h4 : 4 ≤ (addr.data.splitOn '!').length := by
      rcases hs : addr.data.splitOn '!' with _ | ⟨_, _ | ⟨_, _ | ⟨_, _ | ⟨_, _⟩⟩⟩⟩
      · exact absurd hs (List.splitOnP_ne_nil _ _)
      · exact absurd hs (h₁ _)
      · exact absurd hs (h₂ _ _)
      · exact absurd hs (h₃ _ _ _)
      · simp
    exact ⟨h4, fun hle => absurd h4 (by omega)⟩

/-- An address of four tokens or more is left alone. -/
theorem fillAddr_of_le {addr : String} (h : 4 ≤ (addr.data.splitOn '!').length) :
    fillAddr addr = addr := by
  unfold fillAddr
  split <;> simp_all

/-- `lastIndexByte` finds the last `c`: the list is what stands before it, `c`, and a rest
without `c`. -/
theorem lastIndexByte_eq_some {c : Char} :
    ∀ {l : List Char} {n : Nat}, lastIndexByte l c = some n →
      l = l.take n ++ c :: l.drop (n + 1) ∧ c ∉ l.drop (n + 1)
  | [], _, h => by cases h
  | x :: xs, n, h => by
    unfold lastIndexByte at h
    rcases hx : lastIndexByte xs c with _ | m
    · rw [hx] at h
      split_ifs at h with hxc
      cases h
      refine ⟨by simp [hxc], fun hc => ?_⟩
      have hc' : c ∈ xs := by simpa using hc
      simpa [hx] using lastIndexByte_isSome hc'
    · rw [hx] at h
      cases h
      obtain ⟨h₁, h₂⟩ := lastIndexByte_eq_some hx
      exact ⟨by simpa using h₁, by simpa using h₂⟩

/-- `splitaddr` cuts at the last `!`: the tree name has no `!`. -/
theorem splitaddr_eq_some {addr ca t : String} (h : splitaddr addr = some (ca, t)) :
    ca ++ "!" ++ t = addr ∧ '!' ∉ t.data := by
  obtain ⟨n, hn, he⟩ := Option.map_eq_some'.mp h
  cases he
  obtain ⟨h₁, h₂⟩ := lastIndexByte_eq_some hn
  exact ⟨String.ext (by simpa [String.data_append] using h₁.symm), h₂⟩

/-- `FillAddr` is idempotent: a filled address has four tokens and is left alone. -/
theorem fillAddr_fillAddr (addr : String) : fillAddr (fillAddr addr) = fillAddr addr :=
  fillAddr_of_le (splitOn_fillAddr addr).1

/-- `splitaddr` of a filled address: the connection address, `!`, and a tree name without
`!`, which is `main` when the address had at most three tokens. -/
theorem splitaddr_fillAddr (addr : String) :
    ∃ ca t, splitaddr (fillAddr addr) = some (ca, t) ∧ ca ++ "!" ++ t = fillAddr addr ∧
      '!' ∉ t.data ∧ ((addr.data.splitOn '!').length ≤ 3 → t = "main") := by
  obtain ⟨⟨ca, t⟩, h⟩ := Option.isSome_iff_exists.mp (splitaddr_fillAddr_isSome addr)
  obtain ⟨hcat, ht⟩ := splitaddr_eq_some h
  refine ⟨ca, t, h, hcat, ht, fun hle => String.ext ?_⟩
  have hlast := (splitOn_fillAddr addr).2 hle
  rw [← hcat, show (ca ++ "!" ++ t).data = ca.data ++ '!' :: t.data by
    simp [String.data_append], splitOn_append_cons, splitOn_of_not_mem ht] at hlast
  simpa using hlast

end Rzx
