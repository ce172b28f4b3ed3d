import CtForge.Lib.CText
import CtForge.Lib.Lines

/-!
# The daemon's connections (`server.c`)

A client sends lines. Each complete line is a request; it is answered with one line, after
which the connection is closed, unless the request did not parse. A line that is empty as a
C string, or longer than 1024 bytes, is passed over.

The loop over the lines of a chunk goes on after the connection was closed, and a read of
length 0 closes the connection.

Allocations are taken to succeed. What json-c, the methods and the ring buffer compute
stands outside: `World`.
-/

namespace CtForge.Daemon

open CLang Lines List

/-! ## JSON values and methods -/

inductive Json where
  | null
  | bool (b : Bool)
  | int (n : Int)
  | double (text : Bytes)
  | string (s : Bytes)
  | array (items : List Json)
  | object (fields : List (Bytes × Json))

namespace Json

/-- `json_object_object_get_ex`: the value of a member, which may be null. -/
def get : Json → Bytes → Option Json
  | .object fields, key => fields.lookup key
  | _, _ => none

def pointer (j : Json) (key : Bytes) : Option Json :=
  match j.get key with
  | some .null => none
  | r => r

/-- `json_object_get_int` of a value of type int, which saturates. -/
def getInt : Json → Option Int
  | .int n => some (max (-2147483648) (min n 2147483647))
  | _ => none

end Json

def cstring (s : Bytes) : Bytes := s.takeWhile (· ≠ 0)

inductive Method where
  | insmod
  | lsmod
  | rmmod
  | mod
  | status
  deriving DecidableEq, Repr

/-- The methods that `main` registers. -/
def methodTable : List (Bytes × Method) :=
  [(lit "insmod", .insmod), (lit "lsmod", .lsmod), (lit "rmmod", .rmmod), (lit "mod", .mod),
    (lit "status", .status)]

def findMethod (name : Bytes) : Option Method := methodTable.lookup name

/-- What a method returns: 0 and its result, or an error; no method returns both. -/
inductive Outcome where
  | done (result : Option Json)
  | failed

structure World (σ : Type) where
  /-- `json_tokener_parse`. -/
  parse : Bytes → Option Json
  ops : Method → Option Json → σ → Outcome × σ
  /-- The messages that `ring_buffer__consume` hands over and what it returns, or none if the
  ring buffer cannot be made. -/
  ringBuffer : Int → σ → Option (List Bytes × Int)

/-! ## Requests -/

/-- A line that is sent; those of `handle_log` are told apart. -/
inductive Line where
  | text (msg : String)
  | reply (j : Json)
  | log (j : Json)
  | logText (msg : String)

def Line.isResponse : Line → Bool
  | .text _ | .reply _ => true
  | .log _ | .logText _ => false

structure Request where
  method : Method
  reqmsg : Option Json

def response (req : Json) (method : Bytes) (resmsg : Option Json) : Json :=
  .object ([(lit "jsonrpc", .string (lit "2.0"))] ++
    ((req.pointer (lit "type")).map (lit "type", ·)).toList ++
    ((req.pointer (lit "taskid")).map (lit "taskid", ·)).toList ++
    [(lit "method", .string method), (lit "resmsg", resmsg.getD .null)])

/-- `{"msg": msg}`. -/
def msgObject (msg : Bytes) : Json := .object [(lit "msg", .string msg)]

variable {σ : Type}

/-- `handle_log`, on the response with the result `resmsg`. -/
def handleLog (w : World σ) (d : σ) (req : Json) (method : Bytes) (resmsg : Option Json) :
    List Line :=
  match resmsg with
  | some (.object fields) =>
    if ((Json.object fields).pointer (lit "log")).bind Json.getInt = some 1 then
      let logmapFd := (((Json.object fields).pointer (lit "logmap")).bind Json.getInt).getD (-1)
      match w.ringBuffer logmapFd d with
      | none => [.logText "Failed to create ring buffer"]
      | some (events, consumed) =>
        let last := if consumed < 0 then lit "Consume failed: " ++ decimalInt consumed
          else lit "Consumed " ++ decimalInt consumed ++ lit " events"
        (events ++ [last]).map fun msg => .log (response req method (some (msgObject msg)))
    else []
  | _ => []

/-- What became of a request: the state of the daemon, the lines to send, and the request if a
method was called for it. -/
structure Work (σ : Type) where
  daemon : σ
  lines : List Line
  request : Option Request

def doOneHardWork (w : World σ) (d : σ) (req : Json) : Work σ :=
  if (req.get (lit "jsonrpc")).isNone then
    ⟨d, [.text "Invalid Request: missing jsonrpc field"], none⟩
  else
    match req.get (lit "method") with
    | some (.string s) =>
      let method := cstring s
      match findMethod method with
      | none => ⟨d, [.text "Invalid argument, Method not found"], none⟩
      | some m =>
        let reqmsg := req.pointer (lit "reqmsg")
        match w.ops m reqmsg d with
        | (.failed, d) => ⟨d, [.reply (response req method none)], some ⟨m, reqmsg⟩⟩
        | (.done result, d) =>
          ⟨d, .reply (response req method result) :: handleLog w d req method result,
            some ⟨m, reqmsg⟩⟩
    | _ => ⟨d, [.text "Invalid Request: invalid or missing method"], none⟩

/-! ## Connections -/

/-- A connection, with the daemon behind it; `closed` says that `uv_close` was called, and
`handled` are the lines that were handled while it was not, each with the number of responses
that were queued for it. -/
structure Conn (σ : Type) where
  daemon : σ
  recvBuffer : Bytes := []
  closed : Bool := false
  queued : List Line := []
  executed : List Request := []
  handled : List (Bytes × Nat) := []

namespace Conn

/-- `send_message_to_client`, for each of the lines; a stream that is closed is not writable. -/
def send (c : Conn σ) (lines : List Line) : Conn σ :=
  if c.closed then c else { c with queued := c.queued ++ lines }

/-- `request_close_client`. -/
def requestClose (c : Conn σ) : Conn σ := { c with closed := true }

def doPerRequest (w : World σ) (c : Conn σ) (clientMsg : Bytes) : Conn σ :=
  let msg := cstring clientMsg
  if msg = [] then c
  else if 1024 < msg.length then c
  else
    match w.parse msg with
    | none | some .null => c.send [.text "Parse error: invalid JSON"]
    | some (.object fields) =>
      let work := doOneHardWork w c.daemon (.object fields)
      { c.send work.lines with
        daemon := work.daemon
        executed := c.executed ++ work.request.toList }.requestClose
    | some _ => (c.send [.text "Invalid Request: expected JSON object"]).requestClose

def responses (c : Conn σ) : Nat := c.queued.countP Line.isResponse

def serveLine (w : World σ) (c : Conn σ) (line : Bytes) : Conn σ :=
  let served := c.doPerRequest w line
  if c.closed then served
  else { served with handled := c.handled ++ [(line, served.responses - c.responses)] }

/-- `on_client_read`; a chunk without bytes stands for `nread <= 0`, the end of the stream
and errors included. After `uv_close` there is no such call. -/
def onClientRead (w : World σ) (c : Conn σ) (chunk : Bytes) : Conn σ :=
  if c.closed then c
  else if chunk = [] then c.requestClose
  else
    let (lines, rest) := cut 10 (c.recvBuffer ++ chunk)
    { lines.foldl (serveLine w) c with recvBuffer := rest }

def accepted (daemon : σ) : Conn σ := { daemon := daemon }

def deliver (w : World σ) (c : Conn σ) (chunks : List Bytes) : Conn σ :=
  chunks.foldl (onClientRead w) c

end Conn

/-! ## What a line does -/

inductive Reading where
  | skipped
  | invalid
  | object (req : Json)
  | other

def reading (w : World σ) (line : Bytes) : Reading :=
  if cstring line = [] ∨ 1024 < (cstring line).length then .skipped
  else
    match w.parse (cstring line) with
    | none | some .null => .invalid
    | some (.object fields) => .object (.object fields)
    | some _ => .other

def closes (w : World σ) (line : Bytes) : Bool :=
  match reading w line with
  | .object _ | .other => true
  | _ => false

def requestOf (req : Json) : Option Request :=
  if (req.get (lit "jsonrpc")).isNone then none
  else
    match req.get (lit "method") with
    | some (.string s) => (findMethod (cstring s)).map (⟨·, req.pointer (lit "reqmsg")⟩)
    | _ => none

def executes (w : World σ) (line : Bytes) : Option Request :=
  match reading w line with
  | .object req => requestOf req
  | _ => none

section Lines

variable {w : World σ} {c : Conn σ} {line : Bytes}

/-- What is logged is no response. -/
theorem handleLog_no_response (d : σ) (req : Json) (method : Bytes) (resmsg : Option Json) :
    (handleLog w d req method resmsg).countP Line.isResponse = 0 := by
  unfold handleLog
  split
  · split
    · dsimp only
      split
      · rfl
      · rw [countP_eq_zero]
        intro l hl
        obtain ⟨msg, -, rfl⟩ := mem_map.mp hl
        simp [Line.isResponse]
    · rfl
  · rfl

/-- Every request is answered once. -/
theorem doOneHardWork_answers (d : σ) (req : Json) :
    (doOneHardWork w d req).lines.countP Line.isResponse = 1 := by
  unfold doOneHardWork
  split
  · rfl
  · split
    · dsimp only
      split
      · rfl
      · split
        · rfl
        · rw [countP_cons, handleLog_no_response]
          rfl
    · rfl

theorem doOneHardWork_request (d : σ) (req : Json) :
    (doOneHardWork w d req).request = requestOf req := by
  unfold doOneHardWork requestOf
  split
  · rfl
  · split
    · dsimp only
      cases findMethod _ with
      | none => rfl
      | some m =>
        dsimp only
        split <;> rfl
    · rfl

namespace Conn

/-- What one line does, by how it is read. -/
theorem doPerRequest_eq (w : World σ) (c : Conn σ) (line : Bytes) :
    c.doPerRequest w line =
      match reading w line with
      | .skipped => c
      | .invalid => c.send [.text "Parse error: invalid JSON"]
      | .object req =>
        { c.send (doOneHardWork w c.daemon req).lines with
          daemon := (doOneHardWork w c.daemon req).daemon
          executed := c.executed ++ (requestOf req).toList }.requestClose
      | .other => (c.send [.text "Invalid Request: expected JSON object"]).requestClose := by
  by_cases hempty : cstring line = []
  · simp only [doPerRequest, reading, hempty, if_pos, true_or]
  by_cases hlong : 1024 < (cstring line).length
  · simp only [doPerRequest, reading, hempty, hlong, if_pos, or_true, if_false]
  simp only [doPerRequest, reading, hempty, hlong, if_false, or_false]
  cases w.parse (cstring line) with
  | none => rfl
  | some j =>
    cases j with
    | object fields =>
      simp only [doOneHardWork_request]
    | _ => rfl

theorem send_executed (c : Conn σ) (lines : List Line) : (c.send lines).executed = c.executed := by
  unfold send
  split <;> rfl

theorem send_closed (c : Conn σ) (lines : List Line) : (c.send lines).closed = c.closed := by
  unfold send
  split <;> rfl

theorem send_responses (hopen : c.closed = false) (lines : List Line) :
    (c.send lines).responses = c.responses + lines.countP Line.isResponse := by
  simp only [send, hopen, Bool.false_eq_true, if_false, responses, countP_append]

theorem doPerRequest_executed (w : World σ) (c : Conn σ) (line : Bytes) :
    (c.doPerRequest w line).executed = c.executed ++ (executes w line).toList := by
  rw [doPerRequest_eq, executes]
  cases reading w line with
  | skipped => simp
  | invalid => simp [send_executed]
  | object req => rfl
  | other => simp [requestClose, send_executed]

theorem doPerRequest_closed (w : World σ) (c : Conn σ) (line : Bytes) :
    (c.doPerRequest w line).closed = (c.closed || closes w line) := by
  rw [doPerRequest_eq, closes]
  cases reading w line with
  | skipped => simp
  | invalid => simp [send_closed]
  | object req | other => simp [requestClose]

/-- An open connection gets one response for a line of 1 to 1024 bytes, and none for another. -/
theorem doPerRequest_responses (w : World σ) (line : Bytes) (hopen : c.closed = false) :
    (c.doPerRequest w line).responses =
      c.responses + if 0 < (cstring line).length ∧ (cstring line).length ≤ 1024 then 1 else 0 := by
  rw [doPerRequest_eq]
  by_cases hskip : cstring line = [] ∨ 1024 < (cstring line).length
  · have hlength : ¬ (0 < (cstring line).length ∧ (cstring line).length ≤ 1024) := by
      rcases hskip with hempty | hlong
      · simp [hempty]
      · omega
    rw [reading, if_pos hskip, if_neg hlength]
    rfl
  · have hlength : 0 < (cstring line).length ∧ (cstring line).length ≤ 1024 := by
      rw [not_or, ← ne_eq, ← length_pos_iff] at hskip
      omega
    rw [reading, if_neg hskip, if_pos hlength]
    split
    · rename_i hread
      split at hread <;> cases hread
    · exact send_responses hopen _
    · rename_i req _
      have hsend := send_responses hopen (doOneHardWork w c.daemon req).lines
      rwa [doOneHardWork_answers] at hsend
    · exact send_responses hopen _

theorem doPerRequest_queued_of_closed (hclosed : c.closed = true) :
    (c.doPerRequest w line).queued = c.queued := by
  have hsend : ∀ lines, c.send lines = c := fun lines => if_pos hclosed
  rw [doPerRequest_eq]
  cases reading w line with
  | skipped => rfl
  | invalid => simp only [hsend]
  | object req | other => simp only [hsend, requestClose]

theorem doPerRequest_recvBuffer (w : World σ) (c : Conn σ) (line buf : Bytes) :
    { c with recvBuffer := buf }.doPerRequest w line =
      { c.doPerRequest w line with recvBuffer := buf } := by
  have hsend : ∀ lines, { c with recvBuffer := buf }.send lines =
      { c.send lines with recvBuffer := buf } := by
    intro lines
    unfold send
    split <;> rfl
  rw [doPerRequest_eq, doPerRequest_eq]
  cases reading w line with
  | skipped => rfl
  | invalid => exact hsend _
  | object req | other => simp only [hsend, requestClose]

end Conn

end Lines

/-! ## What a chunk does -/

namespace Conn

section Chunks

variable {w : World σ} {c : Conn σ}

theorem serveLine_executed (w : World σ) (c : Conn σ) (line : Bytes) :
    (c.serveLine w line).executed = c.executed ++ (executes w line).toList := by
  unfold serveLine
  split <;> exact doPerRequest_executed w c line

theorem serveLine_closed (w : World σ) (c : Conn σ) (line : Bytes) :
    (c.serveLine w line).closed = (c.closed || closes w line) := by
  unfold serveLine
  split <;> exact doPerRequest_closed w c line

theorem doPerRequest_handled (w : World σ) (c : Conn σ) (line : Bytes) :
    (c.doPerRequest w line).handled = c.handled := by
  have hsend : ∀ lines, (c.send lines).handled = c.handled := by
    intro lines
    unfold send
    split <;> rfl
  rw [doPerRequest_eq]
  cases reading w line with
  | skipped => rfl
  | invalid | object req | other => exact hsend _

theorem serveLine_of_closed (hclosed : c.closed = true) (line : Bytes) :
    (c.serveLine w line).queued = c.queued ∧ (c.serveLine w line).handled = c.handled := by
  rw [serveLine, if_pos hclosed]
  exact ⟨doPerRequest_queued_of_closed hclosed, doPerRequest_handled w c line⟩

/-- The number of responses to a line. -/
def answers (line : Bytes) : Nat :=
  if 0 < (cstring line).length ∧ (cstring line).length ≤ 1024 then 1 else 0

theorem serveLine_open (hopen : c.closed = false) (line : Bytes) :
    (c.serveLine w line).handled = c.handled ++ [(line, answers line)] := by
  rw [serveLine, if_neg (by simp [hopen]), doPerRequest_responses w line hopen,
    Nat.add_sub_cancel_left, answers]

theorem serveLine_recvBuffer (w : World σ) (c : Conn σ) (line buf : Bytes) :
    { c with recvBuffer := buf }.serveLine w line =
      { c.serveLine w line with recvBuffer := buf } := by
  simp only [serveLine, doPerRequest_recvBuffer]
  split <;> rfl

theorem serve_executed (w : World σ) (c : Conn σ) (lines : List Bytes) :
    (lines.foldl (serveLine w) c).executed = c.executed ++ lines.filterMap (executes w) := by
  induction lines generalizing c with
  | nil => simp
  | cons line lines ih =>
    rw [foldl_cons, ih, serveLine_executed, append_assoc]
    cases hreq : executes w line with
    | none => rw [filterMap_cons_none hreq]; rfl
    | some r => rw [filterMap_cons_some hreq]; rfl

theorem serve_closed (w : World σ) (c : Conn σ) (lines : List Bytes) :
    (lines.foldl (serveLine w) c).closed = (c.closed || lines.any (closes w)) := by
  induction lines generalizing c with
  | nil => simp
  | cons line lines ih => rw [foldl_cons, ih, serveLine_closed, any_cons, Bool.or_assoc]

theorem serve_of_closed (hclosed : c.closed = true) (lines : List Bytes) :
    (lines.foldl (serveLine w) c).queued = c.queued ∧
      (lines.foldl (serveLine w) c).handled = c.handled := by
  induction lines generalizing c with
  | nil => exact ⟨rfl, rfl⟩
  | cons line lines ih =>
    have hnext : (c.serveLine w line).closed = true := by rw [serveLine_closed, hclosed]; rfl
    have hline := serveLine_of_closed (w := w) hclosed line
    exact ⟨(ih hnext).1.trans hline.1, (ih hnext).2.trans hline.2⟩

theorem serve_recvBuffer (w : World σ) (c : Conn σ) (lines : List Bytes) (buf : Bytes) :
    lines.foldl (serveLine w) { c with recvBuffer := buf } =
      { lines.foldl (serveLine w) c with recvBuffer := buf } := by
  induction lines generalizing c with
  | nil => rfl
  | cons line lines ih => rw [foldl_cons, serveLine_recvBuffer, ih, foldl_cons]

theorem serve_upTo (w : World σ) (c : Conn σ) (lines : List Bytes) :
    (lines.foldl (serveLine w) c).queued =
      ((upTo (closes w) lines).foldl (serveLine w) c).queued ∧
    (lines.foldl (serveLine w) c).handled =
      ((upTo (closes w) lines).foldl (serveLine w) c).handled := by
  cases hany : lines.any (closes w) with
  | false => rw [upTo_of_not_any hany]; exact ⟨rfl, rfl⟩
  | true =>
    have hsplit : lines.foldl (serveLine w) c = (beyond (closes w) lines).foldl (serveLine w)
        ((upTo (closes w) lines).foldl (serveLine w) c) := by
      rw [← foldl_append, upTo_append_beyond]
    rw [hsplit]
    exact serve_of_closed (by rw [serve_closed, any_upTo, hany, Bool.or_true]) _

theorem serve_handled (hopen : c.closed = false) (lines : List Bytes) :
    ((upTo (closes w) lines).foldl (serveLine w) c).handled =
      c.handled ++ (upTo (closes w) lines).map fun line => (line, answers line) := by
  induction lines generalizing c with
  | nil => simp [upTo]
  | cons line lines ih =>
    rw [upTo]
    split
    · exact serveLine_open hopen line
    · rename_i hgoes
      have hstill : (c.serveLine w line).closed = false := by
        rw [serveLine_closed, hopen, Bool.eq_false_iff.mpr hgoes]
        rfl
      rw [foldl_cons, ih hstill, serveLine_open hopen, append_assoc]
      rfl

def overrun (w : World σ) : Bytes → List Bytes → List Bytes
  | _, [] => []
  | buf, chunk :: chunks =>
    if (cut 10 (buf ++ chunk)).1.any (closes w) then beyond (closes w) (cut 10 (buf ++ chunk)).1
    else overrun w (cut 10 (buf ++ chunk)).2 chunks

theorem onClientRead_open (hopen : c.closed = false) {chunk : Bytes} (hne : chunk ≠ []) :
    c.onClientRead w chunk =
      { (cut 10 (c.recvBuffer ++ chunk)).1.foldl (serveLine w) c with
        recvBuffer := (cut 10 (c.recvBuffer ++ chunk)).2 } := by
  rw [onClientRead, if_neg (by simp [hopen]), if_neg hne]

theorem deliver_closed (hclosed : c.closed = true) (chunks : List Bytes) :
    c.deliver w chunks = c := by
  induction chunks with
  | nil => rfl
  | cons chunk chunks ih =>
    have hread : c.onClientRead w chunk = c := if_pos hclosed
    rw [deliver, foldl_cons, hread]
    exact ih

/-- The reads of a delivery that count: those before the first one without bytes. -/
def heard (reads : List Bytes) : List Bytes := reads.takeWhile (· ≠ [])

/-- The reads count up to the first empty one, which at most closes the connection. -/
theorem deliver_heard (w : World σ) (c : Conn σ) (reads : List Bytes) :
    c.deliver w reads = c.deliver w (heard reads) ∨
      c.deliver w reads = (c.deliver w (heard reads)).requestClose := by
  induction reads generalizing c with
  | nil => exact .inl rfl
  | cons chunk reads ih =>
    by_cases hempty : chunk = []
    · have hheard : heard (chunk :: reads) = [] := by simp [heard, hempty]
      have hread : c.onClientRead w chunk = c.requestClose := by
        rw [onClientRead, if_pos hempty]
        split
        · rename_i hclosed
          rw [requestClose, ← hclosed]
        · rfl
      rw [hheard, deliver, foldl_cons, hread]
      exact .inr (deliver_closed rfl reads)
    · have hheard : heard (chunk :: reads) = chunk :: heard reads := by simp [heard, hempty]
      rw [hheard]
      exact ih (c.onClientRead w chunk)

/-- A delivery without empty reads queues what the stream queues, up to its closing line, and
executes the requests of the stream up to that line, and then those of the overrun. -/
theorem deliver_spec (w : World σ) (chunks : List Bytes) (hne : ∀ chunk ∈ chunks, chunk ≠ [])
    (hopen : c.closed = false) (hbuf : cut 10 c.recvBuffer = ([], c.recvBuffer)) :
    (c.deliver w chunks).queued =
      ((upTo (closes w) (cut 10 (c.recvBuffer ++ chunks.flatten)).1).foldl
        (serveLine w) c).queued ∧
    (c.deliver w chunks).handled =
      ((upTo (closes w) (cut 10 (c.recvBuffer ++ chunks.flatten)).1).foldl
        (serveLine w) c).handled ∧
    (c.deliver w chunks).executed = c.executed ++
      (upTo (closes w) (cut 10 (c.recvBuffer ++ chunks.flatten)).1).filterMap (executes w) ++
      (overrun w c.recvBuffer chunks).filterMap (executes w) := by
  induction chunks generalizing c with
  | nil =>
    rw [flatten_nil, append_nil, hbuf]
    simp [deliver, overrun, upTo]
  | cons chunk chunks ih =>
    rw [flatten_cons, ← append_assoc, cut_append, overrun]
    have hread := onClientRead_open (w := w) hopen (hne chunk mem_cons_self)
    rw [deliver, foldl_cons, ← deliver, hread]
    generalize hcut : cut 10 (c.recvBuffer ++ chunk) = pieces
    have hrest : cut 10 pieces.2 = ([], pieces.2) := hcut ▸ cut_rest 10 _
    cases hany : pieces.1.any (closes w) with
    | true =>
      have hclosed : (pieces.1.foldl (serveLine w) c).closed = true := by
        rw [serve_closed, hany, Bool.or_true]
      rw [deliver_closed (by exact hclosed), upTo_append_of_any hany, if_pos rfl]
      refine ⟨(serve_upTo w c pieces.1).1, (serve_upTo w c pieces.1).2, ?_⟩
      rw [append_assoc, ← filterMap_append, upTo_append_beyond]
      exact serve_executed w c pieces.1
    | false =>
      have hstill : (pieces.1.foldl (serveLine w) c).closed = false := by
        rw [serve_closed, hany, hopen]
        rfl
      have hnext := ih (c := { pieces.1.foldl (serveLine w) c with recvBuffer := pieces.2 })
        (fun chunk' hin => hne chunk' (mem_cons_of_mem _ hin)) hstill hrest
      rw [upTo_append_of_not_any hany, if_neg Bool.false_ne_true, foldl_append,
        filterMap_append]
      refine ⟨?_, ?_, ?_⟩
      · rw [hnext.1, serve_recvBuffer]
      · rw [hnext.2.1, serve_recvBuffer]
      · rw [hnext.2.2, serve_executed]
        simp only [append_assoc]

end Chunks

end Conn

/-- The lines that are handled while the connection is open are the complete lines of what is
heard, up to the closing one, and a line is answered, once, exactly if it has 1 to 1024 bytes
before a NUL. -/
theorem lines_answered_iff (w : World σ) (d : σ) (reads : List Bytes) :
    ((Conn.accepted d).deliver w reads).handled.map Prod.fst =
      upTo (closes w) (cut 10 (Conn.heard reads).flatten).1 ∧
    ∀ p ∈ ((Conn.accepted d).deliver w reads).handled,
      p.2 ≤ 1 ∧
      (p.2 = 1 ↔ 0 < (cstring p.1).length ∧ (cstring p.1).length ≤ 1024) := by
  have hhandled : ((Conn.accepted d).deliver w reads).handled =
      (upTo (closes w) (cut 10 (Conn.heard reads).flatten).1).map
        fun line => (line, Conn.answers line) := by
    have hspec := (Conn.deliver_spec (c := Conn.accepted d) w (Conn.heard reads)
      (fun chunk hchunk => by simpa using all_eq_true.mp all_takeWhile chunk hchunk) rfl rfl).2.1
    rw [Conn.serve_handled rfl] at hspec
    rcases Conn.deliver_heard w (Conn.accepted d) reads with heq | heq <;> rw [heq] <;>
      exact hspec
  rw [hhandled]
  refine ⟨by rw [map_map]; exact map_id _, fun p hp => ?_⟩
  obtain ⟨line, -, rfl⟩ := mem_map.mp hp
  simp only [Conn.answers]
  split <;> simp_all

/-- Two deliveries of a stream queue the same responses, and execute the same requests exactly if
the requests behind the closing line, in its chunk, are the same. A delivery counts up to its
first read without bytes (`Conn.deliver_heard`). -/
theorem chunking_iff (w : World σ) (d : σ) (cs ds : List Bytes) (hsame : cs.flatten = ds.flatten)
    (hcs : ∀ chunk ∈ cs, chunk ≠ []) (hds : ∀ chunk ∈ ds, chunk ≠ []) :
    ((Conn.accepted d).deliver w cs).queued = ((Conn.accepted d).deliver w ds).queued ∧
    (((Conn.accepted d).deliver w cs).executed = ((Conn.accepted d).deliver w ds).executed ↔
      (Conn.overrun w [] cs).filterMap (executes w) =
        (Conn.overrun w [] ds).filterMap (executes w)) := by
  have hc := Conn.deliver_spec (c := Conn.accepted d) w cs hcs rfl rfl
  have hd := Conn.deliver_spec (c := Conn.accepted d) w ds hds rfl rfl
  rw [hsame] at hc
  refine ⟨hc.1.trans hd.1.symm, ?_⟩
  rw [hc.2.2, hd.2.2]
  exact append_right_inj _

/-! ## Streams -/

/-- A request for the state of the daemon, as `ctforgectl` writes it. -/
def statusLine : Bytes := lit "\x7b\"jsonrpc\":\"2.0\",\"method\":\"status\"\x7d"

/-- A daemon that is asked for its state; every other line is no JSON. -/
def statusWorld : World Unit where
  parse := fun s =>
    if s = statusLine then
      some (.object [(lit "jsonrpc", .string (lit "2.0")), (lit "method", .string (lit "status"))])
    else none
  ops := fun _ _ d => (.done (some (.object [(lit "daemon", .string (lit "ok"))])), d)
  ringBuffer := fun _ _ => none

theorem chunking_of_one_request :
    ((Conn.accepted ()).deliver statusWorld [statusLine ++ [10]]).executed =
      ((Conn.accepted ()).deliver statusWorld [statusLine, [10]]).executed := by
  have hwhole : Conn.overrun statusWorld [] [statusLine ++ [10]] = [] := by decide
  have hparts : Conn.overrun statusWorld [] [statusLine, [10]] = [] := by decide
  refine (chunking_iff statusWorld () _ _ ?_ ?_ ?_).2.mpr (by rw [hwhole, hparts])
  · decide
  · decide
  · decide

theorem status_line_answered :
    (statusLine, 1) ∈ ((Conn.accepted ()).deliver statusWorld [statusLine ++ [10]]).handled ∧
    0 < (cstring statusLine).length ∧ (cstring statusLine).length ≤ 1024 := by
  have hhandled : (statusLine, 1) ∈
      ((Conn.accepted ()).deliver statusWorld [statusLine ++ [10]]).handled := by decide
  exact ⟨hhandled, ((lines_answered_iff statusWorld () _).2 _ hhandled).2.mp rfl⟩

/-- One stream in one chunk, in two, and after a read of length 0. -/
theorem chunking_shows :
    [statusLine ++ [10] ++ statusLine ++ [10]].flatten =
      [statusLine ++ [10], statusLine ++ [10]].flatten ∧
    [statusLine ++ [10] ++ statusLine ++ [10]].flatten =
      [[], statusLine ++ [10] ++ statusLine ++ [10]].flatten ∧
    ((Conn.accepted ()).deliver statusWorld
      [statusLine ++ [10] ++ statusLine ++ [10]]).executed.length = 2 ∧
    ((Conn.accepted ()).deliver statusWorld
      [statusLine ++ [10], statusLine ++ [10]]).executed.length = 1 ∧
    ((Conn.accepted ()).deliver statusWorld
      [[], statusLine ++ [10] ++ statusLine ++ [10]]).executed.length = 0 ∧
    ((Conn.accepted ()).deliver statusWorld
      [[], statusLine ++ [10] ++ statusLine ++ [10]]).queued.length = 0 := by
  decide

/-- A line that is not. -/
theorem long_line_unanswered :
    (((Conn.accepted ()).deliver statusWorld [List.replicate 1025 97 ++ [10]]).handled.map
      fun p => (p.1.length, p.2)) = [(1025, 0)] ∧
    ((Conn.accepted ()).deliver statusWorld [List.replicate 1025 97 ++ [10]]).queued.length = 0 ∧
    ((Conn.accepted ()).deliver statusWorld [List.replicate 1025 97 ++ [10]]).closed = false := by
  decide +kernel

end CtForge.Daemon
