import PiVpn.App.Wireguard
import PiVpn.Helper.Machine

/-! The two processes together: the web application asks, the helper runs the command
it is sent, and each keeps its own files. -/

namespace App
open Text Effect Helper

/-- What becomes of the `n`-th call of the helper: the socket may refuse it, and the
reply may be lost or cut short after the command has run. -/
inductive Link where
  | up
  | refused (error : String)
  | lost
  | cut

structure AppEnv where
  helper : Env
  repr : Json → String
  uid : Nat
  link : Nat → Link
  netIfAddrs : Live → List IfaceAddr
  uuid : Nat → String

/-- The state of both processes, with the requests sent so far. -/
structure World where
  helper : State
  metadata : MetadataFile
  log : List LogRecord
  uuids : Nat
  sent : List Request

/-- The helper serves one connection to its end. -/
def serveConnection (env : AppEnv) (req : Request) (s : State) : Reply × State :=
  match execute env.helper (handleClient env.repr (some env.uid) env.uid (.json (.obj req))) s with
  | (.ok (some r), s') => (.response r, s')
  | (_, s') => (.empty, s')

/-- A request on its way to the helper and back. -/
def serve (env : AppEnv) (req : Request) (w : World) : Reply × World :=
  let w' := { w with sent := w.sent ++ [req] }
  match env.link w.sent.length with
  | .refused e => (.unreachable e, w')
  | .up => ((serveConnection env req w.helper).1,
      { w' with helper := (serveConnection env req w.helper).2 })
  | .lost => (.empty, { w' with helper := (serveConnection env req w.helper).2 })
  | .cut => (.garbage, { w' with helper := (serveConnection env req w.helper).2 })

def webHandler (env : AppEnv) : Prog.Handler Web World
  | .helper req, w => serve env req w
  | .readMetadata, w => (w.metadata, w)
  | .writeMetadata m, w => (none, { w with metadata := .data m })
  | .netIfAddrs, w => (env.netIfAddrs w.helper.live, w)
  | .uuid4, w => (env.uuid w.uuids, { w with uuids := w.uuids + 1 })
  | .log r, w => ((), { w with log := w.log ++ [r] })

/-- Run a handler to its end, nothing else running. -/
def runApi {α : Type} (env : AppEnv) (p : Api α) (w : World) : Except Failure α × World :=
  p.exec (webHandler env) w

variable {env : AppEnv} {w : World} {α β : Type}

@[simp] theorem runApi_pure (a : α) : runApi env (pure a) w = (.ok a, w) := rfl

@[simp] theorem runApi_ret (a : α) : runApi env (.pure a) w = (.ok a, w) := rfl

@[simp] theorem runApi_raise (e : Failure) : runApi env (.raise e : Api α) w = (.error e, w) := rfl

@[simp] theorem runApi_httpError (status : Nat) (detail : String) :
    runApi env (httpError status detail : Api α) w = (.error (.http status detail), w) := rfl

theorem runApi_bind (p : Api α) (f : α → Api β) :
    runApi env (p >>= f) w =
      match runApi env p w with
      | (.ok a, w') => runApi env (f a) w'
      | (.error e, w') => (.error e, w') := by
  unfold runApi
  rw [Prog.exec_bind]
  rcases p.exec (webHandler env) w with ⟨_ | _, _⟩ <;> rfl

@[simp] theorem runApi_askHelper (req : Request) :
    runApi env (askHelper req) w = (.ok (serve env req w).1, (serve env req w).2) := rfl

@[simp] theorem runApi_readMetadata : runApi env readMetadata w = (.ok w.metadata, w) := rfl

@[simp] theorem runApi_writeMetadata (m : Metadata) :
    runApi env (writeMetadata m) w = (.ok (), { w with metadata := .data m }) := rfl

@[simp] theorem runApi_netIfAddrs :
    runApi env netIfAddrs w = (.ok (env.netIfAddrs w.helper.live), w) := rfl

@[simp] theorem runApi_uuid4 :
    runApi env uuid4 w = (.ok (env.uuid w.uuids), { w with uuids := w.uuids + 1 }) := rfl

@[simp] theorem runApi_log (r : LogRecord) :
    runApi env (log r) w = (.ok (), { w with log := w.log ++ [r] }) := rfl

/-! ## The metadata a handler loads -/

/-- What `_load_metadata` makes of the file; of a broken one there is nothing. -/
def MetadataFile.loaded : MetadataFile → Metadata
  | .absent => []
  | .unreadable _ => []
  | .broken _ => []
  | .data m => m

def MetadataFile.Loads (f : MetadataFile) : Prop := ∀ e, f ≠ .broken e

theorem MetadataFile.loads_of_lookup {f : MetadataFile} {name : String} {t : TunnelMeta}
    (h : f.loaded.lookup name = some t) : f.Loads := by
  rintro e rfl
  cases h

/-- Loading leaves a record behind where the file cannot be read. -/
def World.afterLoad (w : World) : World :=
  match w.metadata with
  | .unreadable e => { w with log := w.log ++
      [errorLog "metadata_read_failed" "wireguard.metadata.read_failed" [("error", .str e)]] }
  | _ => w

theorem runApi_loadMetadata (h : w.metadata.Loads) :
    runApi env loadMetadata w = (.ok w.metadata.loaded, w.afterLoad) := by
  obtain ⟨helper, file, records, uuids, sent⟩ := w
  cases file with
  | absent => rfl
  | unreadable e => rfl
  | broken e => exact absurd rfl (h e)
  | data m => rfl

theorem runApi_loadMetadata_broken {e : String} (h : w.metadata = .broken e) :
    runApi env loadMetadata w = (.error (.unhandled e), w) := by
  obtain ⟨helper, file, records, uuids, sent⟩ := w
  obtain rfl : file = .broken e := h
  rfl

/-! ## What the helper answers -/

/-- A command as the connection handler runs it. -/
def replied (env : AppEnv) (cmd : String) (r : Except Fault Result × State) : Reply × State :=
  match r with
  | (.ok result, s) => (.response (.ok result), s)
  | (.error (.helper e), s) => (.response (.error (e.message env.repr)),
      { s with log := s.log ++ [errorRecord .warning "command_rejected" "helper.command.rejected"
        (.str cmd) (e.message env.repr)] })
  | (.error (.other text), s) => (.response (.error "internal error"),
      { s with log := s.log ++ [errorRecord .error "command_failed" "helper.command.failed"
        (.str cmd) text] })

theorem serveConnection_eq {req : Request} {cmd : String} {f : Request → Cmd Result} {s : State}
    (hcmd : Json.get req "cmd" = .str cmd) (hf : dispatch cmd = some f) :
    serveConnection env req s = replied env cmd (execute env.helper (f req) s) := by
  have hattempt : execute env.helper (f req).attempt s =
      (.ok (execute env.helper (f req) s).1, (execute env.helper (f req) s).2) :=
    Prog.exec_attempt _ _
  unfold serveConnection handleClient
  simp only [ne_eq, not_true_eq_false, if_false, hcmd, hf]
  rw [execute_bind, reply, execute_bind, hattempt]
  rcases execute env.helper (f req) s with ⟨(e | text) | result, s'⟩ <;> rfl

end App
