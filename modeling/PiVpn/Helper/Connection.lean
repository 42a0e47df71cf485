import PiVpn.Helper.Machine
import PiVpn.Python.JsonText

/-! One connection, from the bytes of its line to the lines written back. What
`json.loads` makes of the bytes is a parameter; every outcome it has is covered. -/

namespace Helper
open Text Effect

/-- What `json.loads` does with a line: it may also raise an exception that is no decode
error of JSON, as for bytes that are no text. -/
inductive Loaded where
  | value (v : Json)
  | decodeError
  | raised

/-- The line as the connection handler goes on with it; an exception that nothing catches
closes the connection like an empty line. -/
def Loaded.line : Loaded → Line
  | .value v => .json v
  | .decodeError => .garbage
  | .raised => .eof

section connection
variable (loads : List UInt8 → Loaded) (env : Env) (repr : Json → String)

def readLine (bytes : List UInt8) : Line := if bytes = [] then .eof else (loads bytes).line

def responseLine (r : Response) : Text := Json.dumps r.json ++ ['\n']

/-- The lines written to a caller whose uid is `peerUid`. -/
def written (allowedUid : Option Nat) (peerUid : Nat) (bytes : List UInt8) (s : State) :
    List Text :=
  match (execute env (handleClient repr allowedUid peerUid (readLine loads bytes)) s).1 with
  | .ok (some r) => [responseLine r]
  | _ => []

end connection

/-! ## What is written -/

/-- A JSON object with a boolean `ok`, and a result or an error to go with it. -/
structure Answer (fields : List (String × Json)) : Prop where
  plain : Json.Plain (.obj fields)
  outcome : fields.lookup "ok" = some (.bool true) ∧ (fields.lookup "result").isSome ∨
    fields.lookup "ok" = some (.bool false) ∧ (fields.lookup "error").isSome

/-- Exactly one line was written, and it holds an answer. -/
def AnsweredOnce (lines : List Text) : Prop :=
  ∃ fields, lines = [Json.dumps (.obj fields) ++ ['\n']] ∧ '\n' ∉ Json.dumps (.obj fields) ∧
    (∀ float, Json.loads float (Json.dumps (.obj fields) ++ ['\n']) = some (.obj fields)) ∧
    Answer fields

theorem plain_jsonText (t : Text) : Json.Plain (jsonText t) := trivial

theorem plain_optionText (t : Option Text) : Json.Plain (optionText t) := by
  cases t <;> exact trivial

theorem plain_peerStatusJson (p : PeerStatus) : Json.Plain (peerStatusJson p) := by
  refine ⟨⟨trivial, plain_optionText _, trivial, trivial, trivial, trivial, trivial⟩, ?_⟩
  simp

theorem plain_tunnelStatusJson (t : TunnelStatus) : Json.Plain (tunnelStatusJson t) := by
  have hpeers : Json.PlainItems (t.peers.map peerStatusJson) := by
    rw [Json.plainItems_iff, List.forall_mem_map]
    exact fun p _ => plain_peerStatusJson p
  have hips : Json.PlainItems (t.conf.configuredAllowedIps.map jsonText) := by
    rw [Json.plainItems_iff, List.forall_mem_map]
    exact fun a _ => plain_jsonText a
  refine ⟨⟨trivial, trivial, plain_optionText _, plain_optionText _, hpeers, trivial,
    plain_optionText _, plain_optionText _, hips, trivial⟩, ?_⟩
  simp

theorem Result.plain_json (r : Result) : Json.Plain r.json := by
  cases r with
  | done => exact ⟨trivial, by simp⟩
  | keys k => exact ⟨⟨trivial, trivial, trivial⟩, by simp⟩
  | tunnels ts =>
    refine ⟨⟨?_, trivial⟩, by simp⟩
    show Json.PlainItems (ts.map tunnelStatusJson)
    rw [Json.plainItems_iff, List.forall_mem_map]
    exact fun t _ => plain_tunnelStatusJson t

theorem Response.plain_json (r : Response) : Json.Plain r.json := by
  cases r with
  | ok result => exact ⟨⟨trivial, result.plain_json, trivial⟩, by simp⟩
  | error text => exact ⟨⟨trivial, trivial, trivial⟩, by simp⟩

theorem answeredOnce_responseLine (r : Response) : AnsweredOnce [responseLine r] := by
  have hplain := r.plain_json
  have hline := (Json.printable_dumps _ hplain).newline
  have hloads := fun float => Json.loads_dumps float hplain
  cases r with
  | ok result => exact ⟨_, rfl, hline, hloads, hplain, .inl ⟨rfl, rfl⟩⟩
  | error text => exact ⟨_, rfl, hline, hloads, hplain, .inr ⟨rfl, rfl⟩⟩

theorem not_answeredOnce_nil : ¬ AnsweredOnce [] := fun ⟨_, h, _⟩ => by cases h

/-! ## Which lines are answered -/

/-- A dictionary may be looked up with this value. -/
def Hashable : Json → Prop
  | .arr _ => False
  | .obj _ => False
  | _ => True

/-- The line reads as an object with a command that can be looked up, or not as JSON. -/
def Loaded.Answerable : Loaded → Prop
  | .decodeError => True
  | .value (.obj req) => Hashable (Json.get req "cmd")
  | _ => False

theorem execute_reply (env : Env) (repr : Json → String) (cmd : Json) (body : Cmd Result)
    (s : State) : ∃ r, (execute env (reply repr cmd body) s).1 = .ok r := by
  have hattempt : execute env body.attempt s = (.ok (execute env body s).1, (execute env body s).2) :=
    Prog.exec_attempt _ _
  rw [reply, execute_bind, hattempt]
  rcases (execute env body s).1 with (e | text) | result
  · exact ⟨_, rfl⟩
  · exact ⟨_, rfl⟩
  · exact ⟨_, rfl⟩

/-- Once a command is looked up it is answered, whatever its handler does. -/
theorem responds_command {env : Env} {repr : Json → String} {req : Request} {cmd : String}
    (hcmd : Json.get req "cmd" = .str cmd) (uid : Nat) (s : State) :
    ∃ r, (execute env (handleClient repr (some uid) uid (.json (.obj req))) s).1 = .ok (some r) := by
  unfold handleClient
  simp only [ne_eq, not_true_eq_false, if_false, hcmd]
  cases hf : dispatch cmd with
  | none => exact ⟨_, rfl⟩
  | some handler =>
    obtain ⟨r, hr⟩ := execute_reply env repr (.str cmd) (handler req) s
    refine ⟨r, ?_⟩
    simp only
    rw [execute_bind]
    rcases h : execute env (reply repr (.str cmd) (handler req)) s with ⟨_ | r', s'⟩
    · rw [h] at hr
      cases hr
    · rw [h] at hr
      cases hr
      rfl

/-- What an authorised caller gets is one line or none. -/
theorem answeredOnce_iff_responds {env : Env} {repr : Json → String} {uid : Nat} {l : Line}
    {s : State} :
    AnsweredOnce (match (execute env (handleClient repr (some uid) uid l) s).1 with
      | .ok (some r) => [responseLine r]
      | _ => []) ↔
    ∃ r, (execute env (handleClient repr (some uid) uid l) s).1 = .ok (some r) := by
  constructor
  · intro h
    split at h
    · next r hr => exact ⟨r, hr⟩
    · exact absurd h not_answeredOnce_nil
  · rintro ⟨r, hr⟩
    rw [hr]
    exact answeredOnce_responseLine r

theorem responds_object_iff {env : Env} {repr : Json → String} {uid : Nat} {req : Request}
    {s : State} :
    (∃ r, (execute env (handleClient repr (some uid) uid (.json (.obj req))) s).1 = .ok (some r)) ↔
      Hashable (Json.get req "cmd") := by
  cases hcmd : Json.get req "cmd" with
  | str cmd => exact iff_of_true (responds_command hcmd uid s) trivial
  | arr xs =>
    refine iff_of_false ?_ id
    simp [handleClient, hcmd]
  | obj fs =>
    refine iff_of_false ?_ id
    simp [handleClient, hcmd]
  | null => exact iff_of_true ⟨.error "unknown command", by simp [handleClient, hcmd]⟩ trivial
  | bool b => exact iff_of_true ⟨.error "unknown command", by simp [handleClient, hcmd]⟩ trivial
  | int n => exact iff_of_true ⟨.error "unknown command", by simp [handleClient, hcmd]⟩ trivial
  | float r => exact iff_of_true ⟨.error "unknown command", by simp [handleClient, hcmd]⟩ trivial

/-- A line of an authorised caller is answered exactly once if and only if it reads as an
object whose command can be looked up, or not as JSON. -/
theorem answered_once_iff (loads : List UInt8 → Loaded) (env : Env) (repr : Json → String)
    (uid : Nat) (bytes : List UInt8) (s : State) :
    AnsweredOnce (written loads env repr (some uid) uid (bytes ++ [10]) s) ↔
      (loads (bytes ++ [10])).Answerable := by
  have hread : readLine loads (bytes ++ [10]) = (loads (bytes ++ [10])).line := if_neg (by simp)
  unfold written
  rw [hread, answeredOnce_iff_responds]
  cases loads (bytes ++ [10]) with
  | decodeError =>
    exact iff_of_true ⟨.error "invalid request", by simp [handleClient, Loaded.line]⟩ trivial
  | raised => exact iff_of_false (by simp [handleClient, Loaded.line]) id
  | value v =>
    cases v with
    | obj req => exact responds_object_iff
    | null => exact iff_of_false (by simp [handleClient, Loaded.line]) id
    | bool b => exact iff_of_false (by simp [handleClient, Loaded.line]) id
    | int n => exact iff_of_false (by simp [handleClient, Loaded.line]) id
    | float r => exact iff_of_false (by simp [handleClient, Loaded.line]) id
    | str t => exact iff_of_false (by simp [handleClient, Loaded.line]) id
    | arr xs => exact iff_of_false (by simp [handleClient, Loaded.line]) id

/-- `json.loads` on bytes that are ASCII. -/
def asciiLoads (float : Text → String) (bytes : List UInt8) : Loaded :=
  if bytes.all (· < 128) then
    match Json.loads float (bytes.map fun b => Char.ofNat b.toNat) with
    | some v => .value v
    | none => .decodeError
  else .raised

/-- The line `[]` is JSON, but no object: nothing is written. -/
theorem list_is_not_answered :
    asciiLoads (fun _ => "") [91, 93, 10] = .value (.arr []) ∧
      ∀ env repr s, written (asciiLoads fun _ => "") env repr (some 0) 0 [91, 93, 10] s = [] ∧
        ¬ AnsweredOnce (written (asciiLoads fun _ => "") env repr (some 0) 0 [91, 93, 10] s) := by
  have hload : asciiLoads (fun _ => "") [91, 93, 10] = .value (.arr []) := by rfl
  refine ⟨hload, fun env repr s => ?_⟩
  have hnone : written (asciiLoads fun _ => "") env repr (some 0) 0 [91, 93, 10] s = [] := by
    simp [written, readLine, hload, Loaded.line, handleClient]
  exact ⟨hnone, hnone ▸ not_answeredOnce_nil⟩

end Helper
