import Mathlib.Data.List.Basic

/-!
# The login page of `ink`

`serveLoginFor(proceedto)` serves `/login`: a page whose scripts set the `clive` cookie from a
password or a totp code and then go to `proceedto`, written into the page three times as the
text of a JavaScript string. The handler is a closure over the parameter `proceedto`, and a
request whose query has a `dst` value assigns it: the variable is shared by every later
request, from any client. The value is pasted between the quotes as it is.

`login` is the handler on one request, `loginRun` the variable after a sequence of requests.

## Main results

* `login_redirect_latest`: the page served for a request goes to the first `dst` of the latest
  request that had one, whichever client sent it, and to the parameter only when none had.
-/

namespace Ink

/-! ### The page -/

/-- The page up to the first `proceedto`: the scripts, and the password form's handler, which
sets the cookie `clive=ch:resp` and goes to `proceedto`. -/
def loginJs0 : String :=
  "\n".intercalate [
    "",
    "\t\t<html>",
    "\t\t<body style=\"background-color:#ddddc8\">",
    "\t\t<script type=\"text/javascript\" src=\"/js/aes.js\"></script>",
    "\t\t<script type=\"text/javascript\" src=\"/js/ansix923.js\"></script>",
    "\t\t<script type=\"text/javascript\" src=\"/js/pbkdf2.js\"></script>",
    "\t\t<script type=\"text/javascript\" src=\"/js/jquery-2.2.0.min.js\"></script>",
    "\t\t<p>",
    "\t\t<script>",
    "\t\t$(function()\x7b",
    "\t\t\t$(\"#dialog\").on(\x27submit\x27, function(e) \x7b",
    "\t\t\t\tvar salt =\x27ltsa\x27;",
    "\t\t\t\tvar usrkey = $(\"#pass\").val();",
    "\t\t\t\tvar key = CryptoJS.PBKDF2(usrkey, salt, \x7b keySize: 256/32, iterations: 1000\x7d);",
    "\t\t\t\tusrkey = \"XXXXXXXXXXXX\";",
    "\t\t\t\tvar ch = Math.random().toPrecision(16).slice(2);",
    "\t\t\t\tvar iv  = CryptoJS.enc.Hex.parse(\x2712131415161718191a1b1c1d1e1f1011\x27);",
    "\t\t\t\tvar enc  = CryptoJS.AES.encrypt(ch, key, \x7b iv: iv, padding: CryptoJS.pad.Pkcs7\x7d);",
    "\t\t\t\tvar c =  \"clive=\" + ch + \":\" + enc.ciphertext + \";secure=secure\";",
    "\t\t\t\tdocument.cookie = c;",
    "\t\t\t\tclive = c;",
    "\t\t\t\t"] ++
    "window.location = \""

/-- Between the first and second `proceedto`: the handler of the totp form, which sets the
cookie `clive=totp:code:time` and goes to `proceedto`. -/
def loginJs1 : String :=
  "\n".intercalate [
    "\";",
    "\t\t\t\treturn false;",
    "\t\t\t\x7d);",
    "\t\t\x7d)",
    "",
    "\t\t$(function()\x7b",
    "\t\t\t$(\"#dialog_totp\").on(\x27submit\x27, function(e) \x7b",
    "\t\t\t\tvar totp_code = $(\"#pass_totp\").val();",
    "\t\t\t\tvar totp_timestamp = Math.round((new Date()).getTime()/1000);",
    "\t\t\t\tvar c =  \"clive=totp:\" + totp_code + \":\" + totp_timestamp + \";secure=secure\";",
    "\t\t\t\tdocument.cookie = c;",
    "\t\t\t\tclive = c;",
    "\t\t\t\t"] ++
    "window.location = \""

/-- Between the second and third `proceedto`: a page not served over https goes to `proceedto`
at once. -/
def loginJs2 : String :=
  "\n".intercalate [
    "\";",
    "\t\t\t\treturn false;",
    "\t\t\t\x7d);",
    "\t\t\x7d)",
    "",
    "\t\tif(window.location.protocol !== \"https:\") \x7b",
    "\t\t\t"] ++
    "window.location = \""

/-- The rest of `js`: the two forms. -/
def loginJs3 : String :=
  "\n".intercalate [
    "\";",
    "\t\t\x7d",
    "\t\t</script>",
    "\t\t<p><center><tt>",
    "\t\t<b><form name=\"form\" id=\"dialog\" action=\"\" method=\"get\" >",
    "\t\t\t<label for=\"box\">Clive ink password: </label>",
    "\t\t\t<input name=\"box\" id=\"pass\" type=\"password\"/ ></form></b>",
    "\t\t<p>or use totp (time-based one-time password)</p>",
    "\t\t<b><form name=\"form_totp\" id=\"dialog_totp\" action=\"\" method=\"get\" >",
    "\t\t\t<label for=\"box_totp\">6 digit code: </label>",
    "\t\t\t<input name=\"box_totp\" id=\"pass_totp\"/ ></form></b>",
    "\t\t\t<p>or <a href=\"/login\">set up</a> totp.</tt></center>",
    ""]

/-- The second write of the `/login` handler: the two pictures and the end of the page. -/
def loginImgs : String :=
  "\n".intercalate [
    "<img src=\"http://lsub.org/clive.gif\"  alt=\"\" style=\"position:fixed; top:0; left:0; z-index:-1; width:100px;\">",
    "\t\t<img src=\"http://lsub.org/zxlogo.gif\"  alt=\"\" style=\"position:fixed; bottom:0; right:0; z-index:-1; width:100px;\">",
    "\t\t\t</body></html>"]

/-- The page `/login` writes for `proceedto`: `js`, with `"%s\n<p>\n"`, then the pictures. -/
def loginPage (proceedto : String) : String :=
  loginJs0 ++ proceedto ++ loginJs1 ++ proceedto ++ loginJs2 ++ proceedto ++ loginJs3 ++
    "\n<p>\n" ++ loginImgs ++ "\n"

/-- The `/login` handler on a request whose query has the values `dst` for `dst`: the captured
`proceedto` afterwards, and the page. -/
def login (proceedto : String) (dst : List String) : String × String :=
  let proceedto := match dst with
    | d :: _ => d
    | [] => proceedto
  (proceedto, loginPage proceedto)

/-- The captured `proceedto` after `serveLoginFor(p0)` served requests with these `dst` values,
in order. -/
def loginRun (p0 : String) (reqs : List (List String)) : String :=
  reqs.foldl (fun p dst => (login p dst).1) p0

/-! ### Where the page goes -/

/-- `proceedto` is the first `dst` of the latest request that had one. -/
theorem loginRun_eq (p0 : String) (reqs : List (List String)) :
    loginRun p0 reqs = ((reqs.filterMap List.head?).getLast?).getD p0 := by
  induction reqs generalizing p0 with
  | nil => rfl
  | cons dst reqs ih =>
    rw [loginRun, List.foldl_cons, ← loginRun, ih]
    rcases dst with _ | ⟨d, ds⟩
    · rfl
    · simp [login, List.getLast?_cons]

/-- **The redirect is the latest `dst` of any client.** The page served for a request, after
`serveLoginFor(p0)` served `reqs`, goes to the first `dst` of the latest request that had one,
this request included, and to `p0` only when none had. -/
theorem login_redirect_latest (p0 : String) (reqs : List (List String)) (dst : List String) :
    (login (loginRun p0 reqs) dst).2 =
      loginPage ((((reqs ++ [dst]).filterMap List.head?).getLast?).getD p0) := by
  have h := loginRun_eq p0 (reqs ++ [dst])
  rw [loginRun, List.foldl_append, List.foldl_cons, List.foldl_nil, ← loginRun] at h
  rw [← h]
  rfl

/-- One client asks for `/login?dst=/x`; the next, with no `dst`, is sent to `/x` too. -/
example : (login (loginRun "/" [["/x"]]) []).2 = loginPage "/x" := rfl

end Ink
