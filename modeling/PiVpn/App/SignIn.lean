import PiVpn.Lib.Transition
import PiVpn.Lib.Dict
import PiVpn.Python.Json

/-! Signing in: the session in its signed cookie, the gate before every handler, and the
redirects between the pages, the login and the identity provider. -/

namespace SignIn
open Text Transition

/-! ## Sessions and their cookies -/

abbrev Session := List (String × Json)

def userKey : String := "user"

/-- `SessionMiddleware`'s default, in seconds. -/
def maxAge : Nat := 14 * 24 * 60 * 60

/-- The signer of the cookies: what it signed reads back for two weeks. -/
structure Signer where
  Cookie : Type
  sign : Nat → Session → Cookie
  unsign : Nat → Cookie → Option Session
  unsign_sign : ∀ t s now, unsign now (sign t s) = if t ≤ now ∧ now ≤ t + maxAge then some s else none

/-- `current_user` without the exception. -/
def currentUser (s : Session) : Option Json :=
  if Json.truthy (Json.get s userKey) then some (Json.get s userKey) else none

abbrev Claims := List (String × Json)

/-- The claims that are kept of a token. -/
def userOf (claims : Claims) : Json :=
  .obj [("sub", Json.get claims "sub"), ("email", Json.get claims "email"), ("name", Json.get claims "name")]

/-- `not claims or not claims.get("sub")`, the other way round. -/
def accepted (claims : Claims) : Bool := Json.truthy (.obj claims) && Json.truthy (Json.get claims "sub")

/-! ## Routes -/

inductive Method where
  | get
  | head
  | post
  | delete
  | other (name : Text)
  deriving DecidableEq

inductive Route where
  | login
  | callback
  | logout
  | openFiles
  | gated (handler : String)
  deriving DecidableEq

def rootPath : Text := ['/']
def loginPath : Text := "/auth/login".toList
def callbackPath : Text := "/auth/callback".toList
def authPrefix : Text := "/auth/".toList
def staticPrefix : Text := "/static/".toList

/-- The segments of a path; a parameter stands for any one of them. -/
def template (path : String) : List (Option Text) :=
  (path.toList.splitOn '/').map fun segment => if segment.head? = some '{' then none else some segment

def fits : List (Option Text) → List Text → Bool
  | [], [] => true
  | some literal :: template, segment :: segments => literal = segment && fits template segments
  | none :: template, segment :: segments => segment ≠ [] && fits template segments
  | _, _ => false

/-- The routes of the application; those of the generated documentation ask for no user either. -/
def routes : List (Method × List (Option Text) × Route) :=
  [(.get, template "/openapi.json", .openFiles),
    (.head, template "/openapi.json", .openFiles),
    (.get, template "/docs", .openFiles),
    (.head, template "/docs", .openFiles),
    (.get, template "/docs/oauth2-redirect", .openFiles),
    (.head, template "/docs/oauth2-redirect", .openFiles),
    (.get, template "/redoc", .openFiles),
    (.head, template "/redoc", .openFiles),
    (.get, template "/auth/login", .login),
    (.get, template "/auth/callback", .callback),
    (.get, template "/auth/logout", .logout),
    (.get, template "/api/network/interfaces", .gated "list_interfaces"),
    (.post, template "/api/network/configure", .gated "configure_interface"),
    (.get, template "/api/network/wifi/known", .gated "list_known_wifi"),
    (.get, template "/api/network/wifi/scan", .gated "scan_wifi"),
    (.post, template "/api/network/wifi/connect", .gated "wifi_connect"),
    (.get, template "/api/routing", .gated "list_routes"),
    (.post, template "/api/routing", .gated "add_route"),
    (.delete, template "/api/routing", .gated "delete_route"),
    (.get, template "/api/monitor/stats", .gated "stats"),
    (.post, template "/api/monitor/rollback-alert/dismiss", .gated "dismiss_rollback_alert"),
    (.post, template "/api/system/reboot", .gated "reboot"),
    (.post, template "/api/system/shutdown", .gated "shutdown"),
    (.get, template "/api/wireguard/tunnels", .gated "list_tunnels"),
    (.post, template "/api/wireguard/tunnels", .gated "create_tunnel"),
    (.delete, template "/api/wireguard/tunnels/{name}", .gated "delete_tunnel"),
    (.post, template "/api/wireguard/tunnels/{name}/state", .gated "set_tunnel_state"),
    (.get, template "/api/wireguard/tunnels/{name}/peers", .gated "list_peers"),
    (.post, template "/api/wireguard/tunnels/{name}/peers", .gated "create_peer"),
    (.delete, template "/api/wireguard/tunnels/{name}/peers/{peer_id}", .gated "delete_peer"),
    (.get, template "/api/wireguard/status", .gated "status_snapshot"),
    (.get, template "/", .gated "dashboard"),
    (.get, template "/network", .gated "network_page"),
    (.get, template "/routing", .gated "routing_page"),
    (.get, template "/wireguard", .gated "wireguard_page")]

/-- The handlers with a payload. -/
def takesBody (handler : String) : Bool :=
  handler ∈ ["configure_interface", "wifi_connect", "add_route", "delete_route", "create_tunnel", "set_tunnel_state",
    "create_peer"]

def isStatic (path : Text) : Bool := staticPrefix.isPrefixOf path

/-- Some route has this path, for one method or another. -/
def known (path : Text) : Bool :=
  isStatic path || routes.any fun r => fits r.2.1 (path.splitOn '/')

def findRoute (method : Method) (path : Text) : Option Route :=
  if isStatic path then some .openFiles
  else (routes.find? fun r => r.1 = method && fits r.2.1 (path.splitOn '/')).map fun r => r.2.2

/-- A path that is not known is tried without, or with, a slash at its end. -/
def otherSlash (path : Text) : Text :=
  if path.getLast? = some '/' then path.rdropWhile (· = '/') else path ++ ['/']

/-! ## One request -/

inductive Location where
  | device (path : Text)
  | outside (url : Text)
  deriving DecidableEq

/-- How the library's calls and the rest of the handlers turn out in one request. -/
inductive Authorize where
  | redirect (url : Text)
  | unreachable
  | raises

inductive ServerMetadata where
  | found (endSession : Option Text)
  | unreachable
  | raises

inductive Handled where
  | answers (status : Nat)
  | raises

/-- What one request meets. The library keeps its own keys in the session, never the user; the
identity provider keeps the browser or sends it anywhere. -/
structure World where
  now : Nat
  touch : Session → Session
  keepsUser : ∀ s, Json.get (touch s) userKey = Json.get s userKey
  authorize : Authorize
  exchange : Option (Option Claims)
  metadata : ServerMetadata
  handler : Handled
  idp : Option Location

/-- A body that cannot be parsed has the status with which it is refused. -/
structure Request (signer : Signer) where
  method : Method
  path : Text
  cookie : Option signer.Cookie
  unparsed : Option Nat

inductive SetCookie (signer : Signer) where
  | keep
  | set (cookie : signer.Cookie)
  | delete

structure Response (signer : Signer) where
  status : Nat
  location : Option Location
  cookie : SetCookie signer

/-- The response, the handler that ran with its user, and the claims of a login. -/
structure Served (signer : Signer) where
  response : Response signer
  handled : Option (String × Json)
  login : Option Claims

variable {signer : Signer}

/-- The session of a request; a cookie that does not verify counts as none. -/
def loadSession (now : Nat) (cookie : Option signer.Cookie) : Option Session := cookie.bind (signer.unsign now)

/-- What the middleware makes of the session when the response starts. -/
def persist (now : Nat) (loaded : Option Session) (s : Session) : SetCookie signer :=
  if s ≠ [] then .set (signer.sign now s) else if loaded.isSome then .delete else .keep

/-- `unhandled_exception_handler`; it answers outside the session middleware. -/
def unhandled (req : Request signer) : Response signer :=
  if req.method = .get ∧ req.path ≠ rootPath ∧ ¬ authPrefix.isPrefixOf req.path = true then
    ⟨307, some (.device rootPath), .keep⟩
  else ⟨500, none, .keep⟩

def serveLogin (w : World) (req : Request signer) (loaded : Option Session) : Served signer :=
  let session := w.touch (loaded.getD [])
  match w.authorize with
  | .redirect url => ⟨⟨302, some (.outside url), persist w.now loaded session⟩, none, none⟩
  | .unreachable => ⟨⟨503, none, persist w.now loaded session⟩, none, none⟩
  | .raises => ⟨unhandled req, none, none⟩

def serveCallback (w : World) (loaded : Option Session) : Served signer :=
  let session := w.touch (loaded.getD [])
  match w.exchange with
  | some (some claims) =>
    if accepted claims then
      let session := Dict.put session userKey (userOf claims)
      ⟨⟨307, some (.device rootPath), persist w.now loaded session⟩, none, some claims⟩
    else ⟨⟨401, none, persist w.now loaded session⟩, none, none⟩
  | _ => ⟨⟨401, none, persist w.now loaded session⟩, none, none⟩

def serveLogout (w : World) (req : Request signer) (loaded : Option Session) : Served signer :=
  match w.metadata with
  | .found (some url) =>
    let target := if url ≠ [] then Location.outside url else .device loginPath
    ⟨⟨307, some target, persist w.now loaded []⟩, none, none⟩
  | .found none => ⟨⟨307, some (.device loginPath), persist w.now loaded []⟩, none, none⟩
  | .unreachable => ⟨⟨200, none, persist w.now loaded []⟩, none, none⟩
  | .raises => ⟨unhandled req, none, none⟩

/-- The rest of a handler, once it may run. -/
def serveHandler (w : World) (req : Request signer) (loaded : Option Session)
    (handled : Option (String × Json)) : Served signer :=
  match w.handler with
  | .answers status => ⟨⟨status, none, persist w.now loaded (loaded.getD [])⟩, handled, none⟩
  | .raises => ⟨unhandled req, handled, none⟩

/-- The body is parsed before the user is looked up, and its fields are checked behind that. -/
def serveGated (w : World) (req : Request signer) (loaded : Option Session) (handler : String) : Served signer :=
  match req.unparsed.filter fun _ => takesBody handler with
  | some status => ⟨⟨status, none, persist w.now loaded (loaded.getD [])⟩, none, none⟩
  | none =>
    match currentUser (loaded.getD []) with
    | none => ⟨⟨303, some (.device loginPath), persist w.now loaded (loaded.getD [])⟩, none, none⟩
    | some user => serveHandler w req loaded (some (handler, user))

def serve (w : World) (req : Request signer) : Served signer :=
  let loaded := loadSession w.now req.cookie
  match findRoute req.method req.path with
  | some .login => serveLogin w req loaded
  | some .callback => serveCallback w loaded
  | some .logout => serveLogout w req loaded
  | some .openFiles => serveHandler w req loaded none
  | some (.gated handler) => serveGated w req loaded handler
  | none =>
    let session := loaded.getD []
    if known req.path then ⟨⟨405, none, persist w.now loaded session⟩, none, none⟩
    else if req.path ≠ rootPath ∧ known (otherSlash req.path) = true then
      ⟨⟨307, some (.device (otherSlash req.path)), persist w.now loaded session⟩, none, none⟩
    else ⟨⟨404, none, persist w.now loaded session⟩, none, none⟩

/-! ## Who is let in -/

section
variable {w : World} {req : Request signer} {loaded : Option Session}

theorem currentUser_of_get_eq {s s' : Session} (h : Json.get s userKey = Json.get s' userKey) :
    currentUser s = currentUser s' := by
  rw [currentUser, currentUser, h]

/-- The session that a response saves holds the user it was loaded with, or the one of a login. -/
def Carries (loaded : Option Session) (login : Option Claims) (cookie : SetCookie signer) : Prop :=
  ∀ c, cookie = .set c → ∃ t s, c = signer.sign t s ∧ ∀ user, currentUser s = some user →
    currentUser (loaded.getD []) = some user ∨
      ∃ claims, login = some claims ∧ accepted claims = true ∧ user = userOf claims

theorem carries_persist {s : Session} {login : Option Claims} {now : Nat}
    (h : ∀ user, currentUser s = some user → currentUser (loaded.getD []) = some user ∨
      ∃ claims, login = some claims ∧ accepted claims = true ∧ user = userOf claims) :
    Carries loaded login (persist now loaded s : SetCookie signer) := by
  intro c hc
  rw [persist] at hc
  split at hc
  · exact ⟨now, s, (SetCookie.set.inj hc).symm, h⟩
  · split at hc <;> cases hc

theorem carries_touch (w : World) : Carries loaded none
    (persist w.now loaded (w.touch (loaded.getD [])) : SetCookie signer) := by
  refine carries_persist fun user hu => .inl ?_
  rwa [currentUser_of_get_eq (w.keepsUser _)] at hu

theorem carries_same (now : Nat) : Carries loaded none (persist now loaded (loaded.getD []) : SetCookie signer) :=
  carries_persist fun _ hu => .inl hu

theorem carries_keep {login : Option Claims} : Carries loaded login (.keep : SetCookie signer) := by
  intro c hc
  cases hc

theorem carries_unhandled (req : Request signer) : Carries loaded none (unhandled req).cookie := by
  rw [unhandled]
  split <;> exact carries_keep

/-- What one request can do to who is signed in. -/
structure Fair (loaded : Option Session) (r : Served signer) : Prop where
  cookie : Carries loaded r.login r.response.cookie
  handled : ∀ handler user, r.handled = some (handler, user) → currentUser (loaded.getD []) = some user
  login : ∀ claims, r.login = some claims → accepted claims = true

theorem fair_of_open {response : Response signer} (h : Carries loaded none response.cookie) :
    Fair loaded ⟨response, none, none⟩ :=
  ⟨h, nofun, nofun⟩

theorem fair_serveLogin : Fair loaded (serveLogin w req loaded) := by
  rw [serveLogin]
  split
  · exact fair_of_open (carries_touch w)
  · exact fair_of_open (carries_touch w)
  · exact fair_of_open (carries_unhandled req)

theorem fair_serveCallback : Fair loaded (serveCallback w loaded : Served signer) := by
  rw [serveCallback]
  split
  · next claims _ =>
    dsimp only
    split
    · next haccepted =>
      refine ⟨carries_persist fun user hu => .inr ⟨claims, rfl, haccepted, ?_⟩, nofun, ?_⟩
      · have hget : Json.get (Dict.put (w.touch (loaded.getD [])) userKey (userOf claims)) userKey =
            userOf claims := by rw [Json.get, Dict.lookup_put_self, Option.getD_some]
        rw [currentUser, hget] at hu
        exact (Option.some.inj hu).symm
      · intro claims' hl
        rw [← Option.some.inj hl]
        exact haccepted
    · exact fair_of_open (carries_touch w)
  · exact fair_of_open (carries_touch w)

theorem fair_serveLogout : Fair loaded (serveLogout w req loaded) := by
  have hcleared : Carries loaded none (persist w.now loaded [] : SetCookie signer) :=
    carries_persist fun user hu => by cases hu
  rw [serveLogout]
  split
  · exact fair_of_open hcleared
  · exact fair_of_open hcleared
  · exact fair_of_open hcleared
  · exact fair_of_open (carries_unhandled req)

theorem fair_serveHandler {handled : Option (String × Json)}
    (h : ∀ handler user, handled = some (handler, user) → currentUser (loaded.getD []) = some user) :
    Fair loaded (serveHandler w req loaded handled) := by
  rw [serveHandler]
  split
  · exact ⟨carries_same w.now, h, fun _ hl => by cases hl⟩
  · exact ⟨carries_unhandled req, h, fun _ hl => by cases hl⟩

theorem fair_serveGated (handler : String) : Fair loaded (serveGated w req loaded handler) := by
  rw [serveGated]
  split
  · exact fair_of_open (carries_same w.now)
  · split
    · exact fair_of_open (carries_same w.now)
    · next user huser =>
      refine fair_serveHandler fun handler' user' hh => ?_
      rw [huser, ← (Prod.mk.inj (Option.some.inj hh)).2]

theorem fair_serve (w : World) (req : Request signer) : Fair (loadSession w.now req.cookie) (serve w req) := by
  rw [serve]
  dsimp only
  split
  · exact fair_serveLogin
  · exact fair_serveCallback
  · exact fair_serveLogout
  · exact fair_serveHandler fun _ _ hh => by cases hh
  · exact fair_serveGated _
  · split
    · exact fair_of_open (carries_same w.now)
    · split
      · exact fair_of_open (carries_same w.now)
      · exact fair_of_open (carries_same w.now)

end

/-! ## Whole runs -/

/-- The cookies handed out, and the logins on record. -/
structure Device (signer : Signer) where
  issued : List signer.Cookie
  logins : List Claims

def fresh : Device signer := ⟨[], []⟩

def SetCookie.issues : SetCookie signer → List signer.Cookie
  | .set c => [c]
  | _ => []

abbrev Event (signer : Signer) := World × Request signer

def step (e : Event signer) (d : Device signer) : Option (Device signer) :=
  let r := serve e.1 e.2
  some ⟨d.issued ++ r.response.cookie.issues, d.logins ++ r.login.toList⟩

/-- Nobody but the device makes a cookie that verifies; a client may send any it has seen. -/
def Unforged (e : Event signer) (d : Device signer) : Prop :=
  ∀ c s, e.2.cookie = some c → signer.unsign e.1.now c = some s → c ∈ d.issued

def OnRecord (d : Device signer) (user : Json) : Prop :=
  ∃ claims ∈ d.logins, accepted claims = true ∧ user = userOf claims

/-- Every cookie holds nobody but a user on record. -/
def Genuine (d : Device signer) : Prop :=
  ∀ c ∈ d.issued, ∃ t s, c = signer.sign t s ∧ ∀ user, currentUser s = some user → OnRecord d user

section
variable {d d' : Device signer} {e : Event signer}

theorem OnRecord.later {user : Json} (h : OnRecord d user) (hlogins : d.logins ⊆ d'.logins) : OnRecord d' user := by
  obtain ⟨claims, hmem, hclaims⟩ := h
  exact ⟨claims, hlogins hmem, hclaims⟩

/-- The user of a request that verifies has logged in before. -/
theorem Genuine.current (h : Genuine d) (hcookie : Unforged e d) {user : Json}
    (huser : currentUser ((loadSession e.1.now e.2.cookie).getD []) = some user) : OnRecord d user := by
  cases hloaded : loadSession e.1.now e.2.cookie with
  | none =>
    rw [hloaded] at huser
    cases huser
  | some s =>
    rw [hloaded, Option.getD_some] at huser
    obtain ⟨c, hc, hs⟩ := Option.bind_eq_some_iff.mp hloaded
    obtain ⟨t, s', rfl, hs'⟩ := h c (hcookie c s hc hs)
    rw [signer.unsign_sign] at hs
    split at hs
    · rw [← Option.some.inj hs] at huser
      exact hs' user huser
    · cases hs

theorem Genuine.step (h : Genuine d) (hcookie : Unforged e d) (hs : step e d = some d') : Genuine d' := by
  rw [← Option.some.inj hs]
  have hfair := fair_serve e.1 e.2
  have hearlier : d.logins ⊆ d.logins ++ (serve e.1 e.2).login.toList := List.subset_append_left _ _
  intro c hc
  rcases List.mem_append.mp hc with hc | hc
  · obtain ⟨t, s, rfl, hs'⟩ := h c hc
    exact ⟨t, s, rfl, fun user hu => (hs' user hu).later hearlier⟩
  · have hset : (serve e.1 e.2).response.cookie = .set c := by
      cases hcookie' : (serve e.1 e.2).response.cookie with
      | set c' =>
        rw [hcookie'] at hc
        rw [List.mem_singleton.mp hc]
      | keep | delete =>
        rw [hcookie'] at hc
        cases hc
    obtain ⟨t, s, rfl, hs'⟩ := hfair.cookie c hset
    refine ⟨t, s, rfl, fun user hu => ?_⟩
    rcases hs' user hu with hu | ⟨claims, hlogin, haccepted, rfl⟩
    · exact (h.current hcookie hu).later hearlier
    · exact ⟨claims, List.mem_append_right _ (by rw [hlogin]; exact List.mem_singleton_self claims), haccepted, rfl⟩

theorem genuine_fresh : Genuine (fresh : Device signer) := fun _ hc => absurd hc List.not_mem_nil

/-- A login is a callback whose token has an accepted set of claims. -/
def Event.Login (e : Event signer) (claims : Claims) : Prop :=
  findRoute e.2.method e.2.path = some .callback ∧ e.1.exchange = some (some claims) ∧ accepted claims = true

theorem login_of_serve {claims : Claims} (h : (serve e.1 e.2).login = some claims) : e.Login claims := by
  have haccepted := (fair_serve e.1 e.2).login claims h
  rw [serve] at h
  dsimp only at h
  split at h
  · rw [serveLogin] at h
    split at h <;> cases h
  · next hroute =>
    rw [serveCallback] at h
    split at h
    · next hexchange =>
      split at h
      · cases h
        exact ⟨hroute, hexchange, haccepted⟩
      · cases h
    · cases h
  · rw [serveLogout] at h
    split at h <;> cases h
  · rw [serveHandler] at h
    split at h <;> cases h
  · rw [serveGated] at h
    split at h
    · cases h
    · split at h
      · cases h
      · rw [serveHandler] at h
        split at h <;> cases h
  · split at h
    · cases h
    · split at h <;> cases h

theorem steps_some (es : List (Event signer)) (d : Device signer) : ∃ d', steps step es d = some d' := by
  induction es generalizing d with
  | nil => exact ⟨d, rfl⟩
  | cons e es ih => exact ih _

theorem logins_of_run {es : List (Event signer)} (hrun : steps step es d = some d') :
    ∀ claims ∈ d'.logins, claims ∈ d.logins ∨ ∃ e ∈ es, e.Login claims := by
  induction es generalizing d with
  | nil =>
    obtain rfl : d = d' := Option.some.inj hrun
    exact fun _ hc => .inl hc
  | cons e es ih =>
    obtain ⟨t, ht, hrest⟩ := steps_cons.mp hrun
    intro claims hclaims
    rcases ih hrest claims hclaims with hc | ⟨e', he', hlogin⟩
    · rw [← Option.some.inj ht] at hc
      rcases List.mem_append.mp hc with hc | hc
      · exact .inl hc
      · exact .inr ⟨e, List.mem_cons_self, login_of_serve (Option.mem_toList.mp hc)⟩
    · exact .inr ⟨e', List.mem_cons_of_mem e he', hlogin⟩

end

/-- Whoever is let in has logged in: whatever is requested, and whichever cookies are sent
again, a handler runs only for the user of a token that was verified before. -/
theorem let_in_after_login {before : List (Event signer)} {e : Event signer}
    (hunforged : Along step Unforged (before ++ [e]) fresh) :
    ∀ handler user, (serve e.1 e.2).handled = some (handler, user) →
      ∃ e' ∈ before, ∃ claims, e'.Login claims ∧ user = userOf claims := by
  intro handler user hh
  obtain ⟨d, hrun⟩ := steps_some before (fresh : Device signer)
  obtain ⟨hbefore, hlast⟩ := hunforged.append
  have hgenuine := hbefore.invariant (fun _ _ _ hcookie hs h => Genuine.step h hcookie hs) hrun genuine_fresh
  obtain ⟨claims, hmem, -, rfl⟩ := hgenuine.current (hlast d hrun).1 ((fair_serve e.1 e.2).handled handler user hh)
  rcases logins_of_run hrun claims hmem with hc | ⟨e', he', hlogin⟩
  · exact absurd hc List.not_mem_nil
  · exact ⟨e', he', claims, hlogin, rfl⟩

/-- Cookies that say what they hold. -/
def plainSigner : Signer where
  Cookie := Nat × Session
  sign t s := (t, s)
  unsign now c := if c.1 ≤ now ∧ now ≤ c.1 + maxAge then some c.2 else none
  unsign_sign _ _ _ := rfl

def annaClaims : Claims := [("sub", .str "anna"), ("email", .str "anna@example.test")]

/-- Everything works, except that a handler may raise. -/
def sampleWorld (now : Nat) (handler : Handled) : World where
  now := now
  touch s := s
  keepsUser _ := rfl
  authorize := .redirect "https://sso.example.test/authorize".toList
  exchange := some (some annaClaims)
  metadata := .found none
  handler := handler
  idp := some (.device callbackPath)

/-- A login, beside somebody who is not let in. -/
def sampleVisit : List (Event plainSigner) :=
  [(sampleWorld 0 (.answers 200), ⟨.get, callbackPath, none, none⟩),
    (sampleWorld 30 (.answers 200), ⟨.post, "/api/routing".toList, none, none⟩)]

def samplePage : Event plainSigner :=
  (sampleWorld 60 (.answers 200), ⟨.get, rootPath, some (0, [(userKey, userOf annaClaims)]), none⟩)

theorem sample_visit_let_in : (serve samplePage.1 samplePage.2).handled = some ("dashboard", userOf annaClaims) ∧
    ∃ e' ∈ sampleVisit, ∃ claims, e'.Login claims ∧ userOf annaClaims = userOf claims := by
  have hunforged : Along step Unforged (sampleVisit ++ [samplePage]) fresh := by
    refine ⟨fun _ _ hc => (by cases hc), fun t ht => ⟨fun _ _ hc => (by cases hc), fun t' ht' =>
      ⟨fun c s hc _ => ?_, fun _ _ => trivial⟩⟩⟩
    rw [← Option.some.inj ht', ← Option.some.inj ht, ← Option.some.inj hc]
    exact List.mem_cons_self
  exact ⟨rfl, let_in_after_login hunforged "dashboard" (userOf annaClaims) rfl⟩

/-! ## A browser that follows the redirects -/

/-- Where it is going, the cookie it keeps, and when it was answered last. -/
structure Browser (signer : Signer) where
  location : Location
  jar : Option signer.Cookie
  since : Nat

def SetCookie.apply (jar : Option signer.Cookie) : SetCookie signer → Option signer.Cookie
  | .keep => jar
  | .set c => some c
  | .delete => none

/-- Follow one redirect; there is none where a page is shown. -/
def hop (w : World) (b : Browser signer) : Option (Browser signer) :=
  match b.location with
  | .outside _ => w.idp.map fun location => { b with location := location }
  | .device path =>
    let r := (serve w ⟨.get, path, b.jar, none⟩).response
    r.location.map fun location => ⟨location, r.cookie.apply b.jar, w.now⟩

def Location.isOutside : Location → Bool
  | .outside _ => true
  | .device _ => false

/-- The redirects that may follow where the identity provider sends the browser anywhere but
to the callback. -/
def detour (w : World) (b : Browser signer) : Nat :=
  if b.location.isOutside ∧ w.idp ≠ some (.device callbackPath) then 5 else 0

/-- The browser goes on at once, or at least before its cookie expires. -/
def Prompt (w : World) (b : Browser signer) : Prop := b.since ≤ w.now ∧ w.now ≤ b.since + maxAge

/-- The browser holds the cookie of the answer it was sent last, and that one signs in. -/
def SignedIn (b : Browser signer) : Prop :=
  ∃ s, b.jar = some (signer.sign b.since s) ∧ (currentUser s).isSome = true

def Route.rank : Route → Nat
  | .callback => 1
  | .login => 3
  | _ => 5

open Classical in
/-- How many redirects may follow: the dashboard of a user who has just signed in is a page. -/
noncomputable def Browser.rank (b : Browser signer) : Nat :=
  match b.location with
  | .outside _ => 2
  | .device path =>
    if path = rootPath then if SignedIn b then 0 else 4
    else match findRoute .get path with
      | some route => route.rank
      | none => if known path then 5 else 6

section
variable {b b' : Browser signer} {w : World} {path : Text}

theorem findRoute_root : findRoute .get rootPath = some (.gated "dashboard") := by decide

theorem findRoute_login : findRoute .get loginPath = some .login := by decide

theorem findRoute_callback : findRoute .get callbackPath = some .callback := by decide

theorem rank_outside {url : Text} (h : b.location = .outside url) : b.rank = 2 := by rw [Browser.rank, h]

theorem rank_root_le (h : b.location = .device rootPath) : b.rank ≤ 4 := by
  simp only [Browser.rank, h, if_true]
  split <;> omega

theorem rank_root (h : b.location = .device rootPath) (hin : SignedIn b) : b.rank = 0 := by
  simp only [Browser.rank, h, if_true, if_pos hin]

theorem rank_route {route : Route} (h : b.location = .device path) (hroot : path ≠ rootPath)
    (hroute : findRoute .get path = some route) : b.rank = route.rank := by
  simp only [Browser.rank, h, if_neg hroot, hroute]

theorem Route.rank_le (route : Route) : route.rank ≤ 5 := by
  cases route <;> simp [Route.rank]

theorem rank_callback (h : b.location = .device callbackPath) : b.rank = 1 :=
  rank_route h (by decide) findRoute_callback

theorem rank_login (h : b.location = .device loginPath) : b.rank = 3 :=
  rank_route h (by decide) findRoute_login

theorem rank_known_le (h : b.location = .device path) (hknown : known path = true) : b.rank ≤ 5 := by
  simp only [Browser.rank, h, hknown, if_true]
  split
  · split <;> omega
  · split
    · exact Route.rank_le _
    · omega

theorem Browser.rank_le (b : Browser signer) : b.rank ≤ 6 := by
  rw [Browser.rank]
  split
  · omega
  · split
    · split <;> omega
    · split
      · next route _ => exact (Route.rank_le route).trans (by omega)
      · split <;> omega

theorem eq_of_fits {segments literals : List Text} (h : fits (literals.map some) segments = true) :
    segments = literals := by
  induction literals generalizing segments with
  | nil =>
    cases segments with
    | nil => rfl
    | cons segment segments => cases h
  | cons literal literals ih =>
    cases segments with
    | nil => cases h
    | cons segment segments =>
      rw [List.map_cons, fits, Bool.and_eq_true, decide_eq_true_eq] at h
      rw [ih h.2, h.1]

theorem login_entry : ∀ r ∈ routes, r.2.2 = .login → r = (.get, (loginPath.splitOn '/').map some, .login) := by
  decide

theorem path_of_login (h : findRoute .get path = some .login) : path = loginPath := by
  rw [findRoute] at h
  split at h
  · cases h
  · obtain ⟨r, hr, hlogin⟩ := Option.map_eq_some_iff.mp h
    have hfits := List.find?_some hr
    rw [login_entry r (List.mem_of_find?_eq_some hr) hlogin, Bool.and_eq_true] at hfits
    have hpath := congrArg (List.intercalate ['/']) (eq_of_fits hfits.2)
    rwa [List.intercalate_splitOn, List.intercalate_splitOn] at hpath

/-- An exception leads to the dashboard, or to a page. -/
theorem unhandled_location {req : Request signer} {location : Location}
    (h : (unhandled req).location = some location) :
    location = .device rootPath ∧ req.path ≠ rootPath ∧ ¬ authPrefix.isPrefixOf req.path = true := by
  rw [unhandled] at h
  split at h
  · next hreq => exact ⟨(Option.some.inj h).symm, hreq.2⟩
  · cases h

theorem hop_handler {jar : Option signer.Cookie} {loaded : Option Session} {handled : Option (String × Json)}
    {location : Location}
    (h : (serveHandler w ⟨.get, path, jar, none⟩ loaded handled).response.location = some location) :
    location = .device rootPath ∧ path ≠ rootPath := by
  rw [serveHandler] at h
  split at h
  · cases h
  · exact ⟨(unhandled_location h).1, (unhandled_location h).2.1⟩

/-- The gate leads to the login, and an exception behind it to the dashboard. -/
theorem hop_gated {jar : Option signer.Cookie} {loaded : Option Session} {handler : String} {location : Location}
    (h : (serveGated w ⟨.get, path, jar, none⟩ loaded handler).response.location = some location) :
    currentUser (loaded.getD []) = none ∧ location = .device loginPath ∨
      location = .device rootPath ∧ path ≠ rootPath := by
  rw [serveGated, Option.filter_none] at h
  dsimp only at h
  split at h
  · next hnone => exact .inl ⟨hnone, (Option.some.inj h).symm⟩
  · exact .inr (hop_handler h)

theorem signedIn_callback {loaded : Option Session} {location : Location} (jar : Option signer.Cookie)
    (h : (serveCallback w loaded : Served signer).response.location = some location) :
    SignedIn (⟨location, (serveCallback w loaded : Served signer).response.cookie.apply jar, w.now⟩ :
        Browser signer) ∧
      location = .device rootPath := by
  rw [serveCallback] at h ⊢
  split at h
  · next claims _ =>
    dsimp only at h ⊢
    split at h
    · next haccepted =>
      rw [if_pos haccepted]
      refine ⟨⟨Dict.put (w.touch (loaded.getD [])) userKey (userOf claims), ?_, ?_⟩, (Option.some.inj h).symm⟩
      · have hfilled : Dict.put (w.touch (loaded.getD [])) userKey (userOf claims) ≠ [] := by
          intro hnil
          have hlookup := Dict.lookup_put_self (w.touch (loaded.getD [])) userKey (userOf claims)
          rw [hnil] at hlookup
          cases hlookup
        change (persist w.now loaded _ : SetCookie signer).apply jar = _
        rw [persist, if_pos hfilled]
        rfl
      · have hget : Json.get (Dict.put (w.touch (loaded.getD [])) userKey (userOf claims)) userKey =
            userOf claims := by rw [Json.get, Dict.lookup_put_self, Option.getD_some]
        rw [currentUser, hget]
        rfl
    · cases h
  · cases h

theorem hop_outside {url : Text} (hloc : b.location = .outside url) (h : hop w b = some b') :
    b'.rank < b.rank + detour w b := by
  rw [hop, hloc] at h
  obtain ⟨location, hidp, rfl⟩ := Option.map_eq_some_iff.mp h
  rw [rank_outside hloc]
  by_cases hback : location = .device callbackPath
  · rw [rank_callback hback]
    omega
  · have hne : w.idp ≠ some (.device callbackPath) := by
      rw [hidp]
      exact fun heq => hback (Option.some.inj heq)
    rw [detour, if_pos ⟨by rw [hloc]; rfl, hne⟩]
    exact Nat.lt_succ_of_le (Browser.rank_le _)

/-- Each redirect of the application goes further towards a page. -/
theorem hop_lowers (hprompt : Prompt w b) (h : hop w b = some b') : b'.rank < b.rank + detour w b := by
  cases hloc : b.location with
  | outside url => exact hop_outside hloc h
  | device path =>
    refine Nat.lt_add_right _ ?_
    rw [hop, hloc] at h
    obtain ⟨location, hlocation, rfl⟩ := Option.map_eq_some_iff.mp h
    by_cases hroot : path = rootPath
    · subst hroot
      simp only [serve, findRoute_root] at hlocation
      rcases hop_gated hlocation with ⟨hnone, hlogin⟩ | ⟨-, hroot⟩
      · have hout : ¬ SignedIn b := by
          rintro ⟨s, hjar, huser⟩
          have hloaded : loadSession w.now b.jar = some s := by
            rw [loadSession, hjar, Option.bind_some, signer.unsign_sign]
            exact if_pos hprompt
          rw [hloaded, Option.getD_some] at hnone
          rw [hnone] at huser
          cases huser
        have hrank : b.rank = 4 := by simp only [Browser.rank, hloc, if_true, if_neg hout]
        rw [rank_login hlogin, hrank]
        omega
      · exact absurd rfl hroot
    · have hlater : location = .device rootPath → ∀ jar since, (⟨location, jar, since⟩ : Browser signer).rank ≤ 4 :=
        fun hdashboard _ _ => rank_root_le hdashboard
      simp only [serve] at hlocation
      cases hroute : findRoute .get path with
      | none =>
        rw [hroute] at hlocation
        dsimp only at hlocation
        split at hlocation
        · cases hlocation
        · next hunknown =>
          split at hlocation
          · next hslash =>
            have hother : location = .device (otherSlash path) := (Option.some.inj hlocation).symm
            have hrank : b.rank = 6 := by
              simp only [Browser.rank, hloc, if_neg hroot, hroute, if_neg hunknown]
            rw [hrank]
            exact Nat.lt_succ_of_le (rank_known_le hother hslash.2)
          · cases hlocation
      | some route =>
        rw [hroute] at hlocation
        cases route with
        | login =>
          have hrank : b.rank = 3 := rank_route hloc hroot hroute
          rw [hrank]
          dsimp only at hlocation
          rw [serveLogin] at hlocation
          split at hlocation
          · rw [rank_outside (Option.some.inj hlocation).symm]
            omega
          · cases hlocation
          · have hauth : authPrefix.isPrefixOf path = true := by
              rw [path_of_login hroute]
              decide
            exact absurd hauth (unhandled_location hlocation).2.2
        | callback =>
          have hrank : b.rank = 1 := rank_route hloc hroot hroute
          dsimp only at hlocation
          obtain ⟨hin, hdashboard⟩ := signedIn_callback b.jar hlocation
          rw [hrank]
          simp only [serve, hroute]
          rw [rank_root hdashboard hin]
          omega
        | logout =>
          have hrank : b.rank = 5 := rank_route hloc hroot hroute
          rw [hrank]
          dsimp only at hlocation
          rw [serveLogout] at hlocation
          split at hlocation
          · next url _ =>
            dsimp only at hlocation
            split at hlocation
            · rw [rank_outside (Option.some.inj hlocation).symm]
              omega
            · rw [rank_login (Option.some.inj hlocation).symm]
              omega
          · rw [rank_login (Option.some.inj hlocation).symm]
            omega
          · cases hlocation
          · exact Nat.lt_succ_of_le (hlater (unhandled_location hlocation).1 _ _)
        | openFiles =>
          have hrank : b.rank = 5 := rank_route hloc hroot hroute
          rw [hrank]
          exact Nat.lt_succ_of_le (hlater (hop_handler hlocation).1 _ _)
        | gated handler =>
          have hrank : b.rank = 5 := rank_route hloc hroot hroute
          rw [hrank]
          rcases hop_gated hlocation with ⟨-, hlogin⟩ | ⟨hdashboard, -⟩
          · rw [rank_login hlogin]
            omega
          · exact Nat.lt_succ_of_le (hlater hdashboard _ _)

end

/-- From any page, signed in or not, and whatever fails on the way, a browser is shown a page
after at most six redirects, and five more for each time that the identity provider sends it
anywhere but to the callback. -/
theorem redirects_end {ws : List World} {b b' : Browser signer} (hprompt : Along hop Prompt ws b)
    (hrun : steps hop ws b = some b') : ws.length ≤ 6 + cost hop detour ws b := by
  have hlength : ws.length + b'.rank ≤ b.rank + cost hop detour ws b :=
    hprompt.length_le (fun _ _ _ hp hs => hop_lowers hp hs) hrun
  have hrank := b.rank_le
  omega

instance (w : World) (b : Browser signer) : Decidable (Prompt w b) := inferInstanceAs (Decidable (_ ∧ _))

/-- The identity provider sends the browser to a page that raises for somebody who is signed out,
and then to the callback: the bound is met. -/
def sampleWay : List World :=
  let there := [Handled.answers 200, .raises, .answers 200, .answers 200].map (sampleWorld 0)
  there ++ [{ sampleWorld 0 (.answers 200) with idp := some (.device "/docs/".toList) }] ++ there ++
    [sampleWorld 0 (.answers 200), sampleWorld 0 (.answers 200)]

def sampleBrowser : Browser plainSigner := ⟨.device "/docs/".toList, none, 0⟩

theorem eleven_redirects_end : (steps hop sampleWay sampleBrowser).isSome ∧ sampleWay.length = 11 ∧
    cost hop detour sampleWay sampleBrowser = 5 ∧
    sampleWay.length ≤ 6 + cost hop detour sampleWay sampleBrowser := by
  have hsome : (steps hop sampleWay sampleBrowser).isSome := by decide +kernel
  obtain ⟨b', hrun⟩ := Option.isSome_iff_exists.mp hsome
  exact ⟨hsome, rfl, by decide +kernel, redirects_end (by decide +kernel) hrun⟩

end SignIn
