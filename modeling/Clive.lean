import Clive.Strings
import Clive.Cmd.Env
import Clive.Rzx.Basic
import Clive.Rzx.Addr
import Clive.Rzx.Call
import Clive.Rzx.Sys
import Clive.Rzx.Invariant
import Clive.Rzx.Trees
import Clive.Rzx.Reach
import Clive.Rzx.Deadlock
import Clive.Rzx.Cache
import Clive.Rzx.Failure
import Clive.Rzx.Envelope
import Clive.Ix.Editors
import Clive.Ix.Look
import Clive.Ix.Lifecycle
import Clive.Ix.Save
import Clive.Ink.Auth
import Clive.Ink.Login
import Clive.Totp.Init
import Clive.Zx.Clean
import Clive.Zx.Path
import Clive.Zx.Match
import Clive.Wr.Roff
import Clive.Wr.Tex
