import Clive.Strings

/-!
# Authenticating web requests in `ink`

`ink` serves its pages and websockets through two wrappers that check the `clive` cookie when
the server runs TLS with authentication enabled. The cookie holds a time-based one-time
password token, `totp:code:time`, or a challenge and its response, `ch:resp`; its value is split
at `:` into at most three tokens, and the token kind is chosen by how many there are.
`AuthHandler` answers a refused request with the logged-out page, `AuthWebSocketHandler` with
`403`; both print a warning saying why. The token checks themselves (`auth.TotpOk`,
`auth.ChallengeResponseOk`) are not in this code, and are parameters here.

The two wrappers run the same checks and differ in the words of their warnings (`auth` and
`authws`) and in how they refuse, so `checkCookie` is written once, with the word as a
parameter.

## Main results

* `checkCookie_ok`: the checks pass exactly for a cookie that is a good `totp:code:time` token
  (`code` without `:`) or a good `ch:resp` pair (both without `:`);
* `handlers_accept`: both wrappers let a request through exactly when authentication is off or
  its cookie passes, and otherwise serve the logged-out page and `403`.
-/

namespace Ink

open Strings

/-- What the wrappers read of `auth`. -/
structure Config where
  /-- `auth.TLSserver != nil`. -/
  tls : Bool
  /-- `auth.Enabled`. -/
  enabled : Bool
  deriving DecidableEq, Repr

/-- The token checks of `auth`: for a service, the user a token names and whether it is good. -/
structure Checks where
  /-- `auth.TotpOk(svc, code, time)`. -/
  totpOk : String → String → String → String × Bool
  /-- `auth.ChallengeResponseOk(svc, ch, resp)`. -/
  challengeResponseOk : String → String → String → String × Bool

/-- What a wrapper does with a request. -/
inductive Response where
  /-- Calls the wrapped handler (for `AuthWebSocketHandler`, serves the websocket). -/
  | handler
  /-- `authFailed(w, r)`: the logged-out page. -/
  | authFailed
  /-- `http.Error(w, msg, code)`. -/
  | error (msg : String) (code : Nat)
  deriving DecidableEq, Repr

/-! ### The checks -/

/-- The cookie checks of the wrappers, whose warnings say `tag`: the warnings printed, and
whether the request passed. `cookie` is `r.Cookie("clive")`: the value, or the error. -/
def checkCookie (tag : String) (ck : Checks) (cookie : Except String String) :
    List String × Bool :=
  match cookie with
  | .error err => (["wax/auth: no cookie: " ++ err], false)
  | .ok v =>
    match (splitN ':' 3 v.data).map String.mk with
    | [t0, t1, t2] =>
      if t0 ≠ "totp" then (["wax/totp " ++ tag ++ ": wrong cookie, not totp"], false)
      else
        let (u, ok) := ck.totpOk "wax" t1 t2
        if !ok then (["wax/totp " ++ tag ++ ": failed for " ++ u], false) else (["totp ok"], true)
    | [ch, resp] =>
      let (u, ok) := ck.challengeResponseOk "wax" ch resp
      if !ok then (["wax/" ++ tag ++ ": failed for " ++ u], false) else ([], true)
    | _ => (["wax/" ++ tag ++ ": wrong cookie"], false)

/-- `AuthHandler(fn)` on a request: the warnings, and the response. -/
def authHandler (cfg : Config) (ck : Checks) (cookie : Except String String) :
    List String × Response :=
  if cfg.tls = false ∨ cfg.enabled = false then ([], .handler)
  else
    let (ws, ok) := checkCookie "auth" ck cookie
    (ws, if ok then .handler else .authFailed)

/-- `AuthWebSocketHandler(h)` on a request: the warnings, and the response. -/
def authWebSocketHandler (cfg : Config) (ck : Checks) (cookie : Except String String) :
    List String × Response :=
  if cfg.tls = true ∧ cfg.enabled = true then
    let (ws, ok) := checkCookie "authws" ck cookie
    if ok then (ws, .handler) else (ws, .error "auth failed" 403)
  else ([], .handler)

/-- `checkOrigin`, the websocket handshake, on `websocket.Origin(config, req)`: the origin it
records, or the error. -/
def checkOrigin (origin : Except String (Option String)) : Except String String :=
  match origin with
  | .error err => .error err
  | .ok none => .error "null origin"
  | .ok (some o) => .ok o

/-! ### What passes -/

/-- A cookie value the checks let through: a `totp` token whose code is good for the rest, or a
challenge and response, each without `:`, where the response is good. -/
def Passes (ck : Checks) (v : String) : Prop :=
  (∃ code rest, v = "totp:" ++ code ++ ":" ++ rest ∧ ':' ∉ code.data ∧
    (ck.totpOk "wax" code rest).2 = true) ∨
  (∃ ch resp, v = ch ++ ":" ++ resp ∧ ':' ∉ ch.data ∧ ':' ∉ resp.data ∧
    (ck.challengeResponseOk "wax" ch resp).2 = true)

@[simp] theorem mk_data (s : String) : String.mk s.data = s := rfl

/-- A `totp` token splits into `totp`, its code and the rest. -/
theorem splitN_totp {code rest : String} (hc : ':' ∉ code.data) :
    splitN ':' 3 ("totp:" ++ code ++ ":" ++ rest).data = ["totp".data, code.data, rest.data] :=
  splitN_three_eq_three.mpr ⟨by simp [String.data_append], by decide, hc⟩

/-- A challenge and response split into the two. -/
theorem splitN_pair {ch resp : String} (hch : ':' ∉ ch.data) (hresp : ':' ∉ resp.data) :
    splitN ':' 3 (ch ++ ":" ++ resp).data = [ch.data, resp.data] :=
  splitN_three_eq_two.mpr ⟨by simp [String.data_append], hch, hresp⟩

/-- **The checks pass exactly for a good token.** -/
theorem checkCookie_ok (tag : String) (ck : Checks) (cookie : Except String String) :
    (checkCookie tag ck cookie).2 = true ↔ ∃ v, cookie = .ok v ∧ Passes ck v := by
  rcases cookie with err | v
  · simp [checkCookie]
  simp only [Except.ok.injEq, exists_eq_left']
  constructor
  · intro h
    rcases hL : splitN ':' 3 v.data with _ | ⟨a, _ | ⟨b, _ | ⟨c, _ | ⟨d, l⟩⟩⟩⟩ <;>
      simp only [checkCookie, hL, List.map_cons, List.map_nil, Bool.false_eq_true] at h
    · -- `ch:resp`
      obtain ⟨hv, ha, hb⟩ := splitN_three_eq_two.mp hL
      refine .inr ⟨⟨a⟩, ⟨b⟩, String.ext (by simp [String.data_append, hv]), ha, hb, ?_⟩
      cases hck : (ck.challengeResponseOk "wax" ⟨a⟩ ⟨b⟩).2 <;> simp [hck] at h ⊢
    · -- `totp:code:time`
      obtain ⟨hv, -, hb⟩ := splitN_three_eq_three.mp hL
      by_cases ht : (⟨a⟩ : String) = "totp"
      · rw [if_neg (not_not.mpr ht)] at h
        refine .inl ⟨⟨b⟩, ⟨c⟩, String.ext ?_, hb, ?_⟩
        · rw [hv, show a = "totp".data from congrArg String.data ht]
          simp [String.data_append]
        · cases hck : (ck.totpOk "wax" ⟨b⟩ ⟨c⟩).2 <;> simp [hck] at h ⊢
      · simp [if_pos ht] at h
  · rintro (⟨code, rest, rfl, hc, hok⟩ | ⟨ch, resp, rfl, hch, hresp, hok⟩)
    · rw [checkCookie, splitN_totp hc]
      simp [hok]
    · rw [checkCookie, splitN_pair hch hresp]
      simp [hok]

/-- A request the wrappers should let through: authentication is off, or its cookie passes. -/
def Admitted (cfg : Config) (ck : Checks) (cookie : Except String String) : Prop :=
  cfg.tls = true → cfg.enabled = true → ∃ v, cookie = .ok v ∧ Passes ck v

/-- **Both wrappers admit exactly the good requests.** `AuthHandler` and `AuthWebSocketHandler`
let a request through exactly when authentication is off or its cookie passes the checks; a
refused request gets the logged-out page from the one and `403 auth failed` from the other. -/
theorem handlers_accept (cfg : Config) (ck : Checks) (cookie : Except String String) :
    ((authHandler cfg ck cookie).2 = .handler ↔ Admitted cfg ck cookie) ∧
      ((authWebSocketHandler cfg ck cookie).2 = .handler ↔ Admitted cfg ck cookie) ∧
      (¬Admitted cfg ck cookie → (authHandler cfg ck cookie).2 = .authFailed ∧
        (authWebSocketHandler cfg ck cookie).2 = .error "auth failed" 403) := by
  obtain ⟨tls, en⟩ := cfg
  cases tls <;> cases en <;> try simp [authHandler, authWebSocketHandler, Admitted]
  -- authentication on: the two wrappers read the same checks
  have h₁ := checkCookie_ok "auth" ck cookie
  have h₂ := checkCookie_ok "authws" ck cookie
  rcases hc₁ : checkCookie "auth" ck cookie with ⟨ws, ok⟩
  rcases hc₂ : checkCookie "authws" ck cookie with ⟨ws', ok'⟩
  rw [hc₁] at h₁
  rw [hc₂] at h₂
  obtain rfl : ok = ok' := Bool.eq_iff_iff.mpr (h₁.trans h₂.symm)
  cases ok <;> simp_all

/-- With checks that refuse every token, a cookie gets the logged-out page and `403`. -/
theorem handlers_refuse_bad_token :
    (authHandler ⟨true, true⟩ ⟨fun _ _ _ => ("u", false), fun _ _ _ => ("u", false)⟩
        (.ok "totp:1:2")).2 = .authFailed ∧
      (authWebSocketHandler ⟨true, true⟩
        ⟨fun _ _ _ => ("u", false), fun _ _ _ => ("u", false)⟩
        (.ok "totp:1:2")).2 = .error "auth failed" 403 :=
  (handlers_accept _ _ _).2.2 fun h => by
    obtain ⟨v, -, (⟨_, _, _, _, h'⟩ | ⟨_, _, _, _, _, h'⟩)⟩ := h rfl rfl <;> cases h'

end Ink
