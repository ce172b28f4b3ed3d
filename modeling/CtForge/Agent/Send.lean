import CtForge.Lib.JsonReads
import CtForge.Lib.StrStr
import CtForge.Agent.Text
import Mathlib.Data.List.Forall2

/-!
# Sending a reply (`ctc_send`)

The type, the identifier of the request and the result of the handler are pasted into one
object, behind its length.
-/

namespace CtForge.Agent

open CLang Json List

def messageFields (type : String) (id session payload : Bytes) : List (String × Bytes) :=
  [("type", string (lit type)), ("version", decimal 1)] ++
    (if id.isEmpty then [] else [("id", string id)]) ++
    (if session.isEmpty then [] else [("session_id", string session)]) ++ [("payload", payload)]

/-- The text that `ctc_send` formats for a message with a payload; `json_escape` leaves the
types as they are. -/
def sendText (type : String) (id session payload : Bytes) : Bytes :=
  snprintf (256 + id.length + session.length + payload.length)
    (object (messageFields type id session payload))

/-- The buffer has room for all of it. -/
theorem sendText_eq {type : String} (htype : type.length ≤ 64) (id session payload : Bytes) :
    sendText type id session payload = object (messageFields type id session payload) := by
  refine snprintf_eq_self ?_
  have hle := length_object_le (messageFields type id session payload)
  have hone : (decimal 1).length = 1 := by decide
  have hlit := length_lit type
  have hkeys : "type".length = 4 ∧ "version".length = 7 ∧ "id".length = 2 ∧
      "session_id".length = 10 ∧ "payload".length = 7 := by decide
  unfold messageFields at hle ⊢
  split_ifs at hle ⊢ <;>
    simp only [map_cons, map_nil, keysLength, valuesLength, cons_append,
      nil_append, length_string, hone, hlit, hkeys] at hle <;>
    simp only [cons_append, nil_append] <;>
    omega

def messageValue (type : String) (id session : Bytes) (payload : Value) : Value :=
  .obj ([(lit "type", .str (lit type)), (lit "version", .num (decimal 1))] ++
    (if id.isEmpty then [] else [(lit "id", .str id)]) ++
    (if session.isEmpty then [] else [(lit "session_id", .str session)]) ++
    [(lit "payload", payload)])

def isPlainText (s : Bytes) : Bool := s.all fun c => isPlain c && c < 128

theorem decodes_plain {s : Bytes} (h : isPlainText s = true) : Decodes (string s) (.str s) :=
  decodes_string (body_of_plain fun c hc => (Bool.and_eq_true_iff.mp (all_eq_true.mp h c hc)).1)
    (unquotes_plain h)

/-- A result that is read as a value is what the server finds as the payload. -/
theorem decode_sendText {type : String} (htype : type.length ≤ 64)
    (hplain : isPlainText (lit type) = true) {id session payload : Bytes}
    (hid : isPlainText id = true) (hsession : isPlainText session = true) {v : Value}
    (h : Decodes payload v) :
    decode (sendText type id session payload) = some (messageValue type id session v) := by
  rw [sendText_eq htype]
  refine Decodes.decode (decodes_object ?_)
  have hpayload : List.Forall₂ MemberDecodes [("payload", payload)] [(lit "payload", v)] :=
    member_cons h .nil
  have hoptional : ∀ (k : String) (s : Bytes), isPlainText (lit k) = true → isPlainText s = true →
      List.Forall₂ MemberDecodes (if s.isEmpty then [] else [(k, string s)])
        (if s.isEmpty then [] else [(lit k, .str s)]) := by
    intro k s hk hs
    split_ifs
    · exact .nil
    · exact member_cons (decodes_plain hs) .nil hk
  have hhead : List.Forall₂ MemberDecodes [("type", string (lit type)), ("version", decimal 1)]
      [(lit "type", .str (lit type)), (lit "version", .num (decimal 1))] :=
    member_cons (decodes_plain hplain)
      (member_cons (decodes_decimalInt 1) .nil)
  exact rel_append (rel_append (rel_append hhead
    (hoptional "id" id (by decide) hid)) (hoptional "session_id" session (by decide) hsession))
    hpayload

end CtForge.Agent
