import VTranser.Lib.JsonWrite
import VTranser.Lib.ObjMap
import VTranser.Server.PyJson
import VTranser.Translator.Handler
import VTranser.Worker.Service

/-!
# What goes over the socket of the translator

The service worker sends objects as `JSON.stringify` writes them. The translator reads
what `json.loads` does, and asks a message what it is and what it says under a number of
names, in the message itself and in objects inside it. Its own messages it writes with
`json.dumps`.

A text on the socket is given in code units. What `float` makes of a text is a parameter.
-/

namespace VTranser.Translator.Wire

open Json (Value)
open Server (PyFloat PyJson getKey intOfStr lower)

/-! ## `json.loads` -/

section

variable (float : PyStr → Option PyFloat)

def loadsNumber (written : PyStr) : Option PyJson :=
  if written.any fun c => c = '.' || c = 'e' || c = 'E' then (float written).map .float
  else (intOfStr written).map .int

/-- The items of a dictionary from the members of an object. -/
def dictOf (members : List (PyStr × PyJson)) : List (PyStr × PyJson) :=
  (members.foldl (fun d m => d.set m.1 m.2) (ObjMap.empty : ObjMap PyStr PyJson)).entries

mutual

/-- The Python value, of a text if it has no surrogate that is alone. -/
def loadsValue : Value → Option PyJson
  | .null => some .null
  | .bool b => some (.bool b)
  | .num written => (Utf16.chars written).bind (loadsNumber float)
  | .str t => (Utf16.chars t).map .str
  | .arr vs => (loadsValues vs).map .list
  | .obj ms => (loadsMembers ms).map fun members => .dict (dictOf members)

def loadsValues : List Value → Option (List PyJson)
  | [] => some []
  | v :: vs => (loadsValue v).bind fun v => (loadsValues vs).map (v :: ·)

def loadsMember : List UInt16 × Value → Option (PyStr × PyJson)
  | (key, v) => (Utf16.chars key).bind fun key => (loadsValue v).map (key, ·)

def loadsMembers : List (List UInt16 × Value) → Option (List (PyStr × PyJson))
  | [] => some []
  | m :: ms => (loadsMember m).bind fun m => (loadsMembers ms).map (m :: ·)

end

def loads (text : JsStr) : Option PyJson := (Json.parse text).bind (loadsValue float)

end

/-! ## What a message says -/

/-- The items of a dictionary. -/
abbrev Dict := List (PyStr × PyJson)

/-- `_as_dict_first` -/
def asDictFirst : PyJson → Option Dict
  | .dict d | .list [.dict d] => some d
  | _ => none

/-- `_iter_candidate_dicts` -/
def iterCandidateDicts (msg : Dict) : List Dict :=
  msg :: ["payload", "data", "detail", "msg"].filterMap fun k => (getKey msg k).bind PyJson.items?

/-- `_get_first_str` of the values under some keys. -/
def getFirstStr (d : Dict) (keys : List String) : PyStr :=
  (keys.findSome? fun k =>
    match getKey d k with
    | some (.str s) => if (pyStrip s).isEmpty then none else some s
    | _ => none).getD []

/-- The first text under some keys in the message, or else in an object inside it. -/
def extractStr (keys : List String) (msg : Dict) : PyStr :=
  (((iterCandidateDicts msg).map fun d => getFirstStr d keys).find? fun s => !s.isEmpty).getD []

/-- `_extract_text` -/
def extractText : Dict → PyStr :=
  extractStr ["full", "text", "stable_full", "stableFull", "stableText", "stable_text", "transcript",
    "en", "en_full", "enFull"]

/-- `_extract_delta` -/
def extractDelta : Dict → PyStr := extractStr ["delta", "append"]

section

variable (float : PyStr → Option PyFloat)

/-- `_get_first_num` of the values under some keys. -/
def getFirstNum (d : Dict) (keys : List String) : Option PyJson :=
  keys.findSome? fun k =>
    match getKey d k with
    | some (.bool b) => some (.bool b)
    | some (.int n) => some (.int n)
    | some (.float x) => some (.float x)
    | some (.str s) =>
        let s := pyStrip s
        if s.isEmpty then none
        else if s.contains '.' then (float s).map .float
        else (intOfStr s).map .int
    | _ => none

/-- The first number under some keys in the message, or else in an object inside it, that
`int` takes. -/
def extractInt (keys : List String) (msg : Dict) : Option Int :=
  (iterCandidateDicts msg).findSome? fun d => (getFirstNum float d keys).bind PyJson.toInt

/-- `_extract_seq_int` -/
def extractSeqInt : Dict → Option Int := extractInt float ["seq", "en_seq", "enSeq"]

/-- `_extract_t_ms_int` -/
def extractTMsInt : Dict → Option Int := extractInt float ["t_ms", "tMs", "t"]

end

/-- The type that a message gives: a text, or another value. What `str` makes of that is
no type that the handler knows. -/
inductive RawType
  | text (s : PyStr)
  | other

def rawType (d : Dict) : Option RawType :=
  match (["type", "event", "kind", "op", "action"].filterMap (getKey d)).find? PyJson.truthy with
  | none => none
  | some (.str s) => if (pyStrip s).isEmpty then none else some (.text (pyStrip s))
  | some _ => some .other

/-- The names of the types. -/
def typeNames : List (MsgType × List String) :=
  [(.stable, ["stable", "enstable", "en-stable", "stablefull", "stable-full", "stable-full-update",
      "stable-update", "stabletext", "stable-text"]),
    (.patch, ["patch", "enpatch", "en-patch", "append", "delta"]),
    (.baseline, ["baseline", "baselinefull", "baseline-full", "baseline-update"]),
    (.reset, ["reset", "restart"])]

/-- The type of a message that does not give one, by the keys it has. -/
def typeOfKeys (dicts : List Dict) : MsgType :=
  let has (keys : List String) : Bool := dicts.any fun d => keys.any fun k => (getKey d k).isSome
  if has ["baseline_full", "baselineFull", "baselineText", "baseline_text"] then .baseline
  else if has ["stable_full", "stableFull", "stableText", "stable_text", "full", "text",
    "transcript", "en", "en_full", "enFull"] then .stable
  else if has ["delta", "append"] then .patch
  else .other

/-- `_infer_mtype`, with the types that the handler ignores as one. -/
def inferMtype (msg : Dict) : MsgType :=
  match (iterCandidateDicts msg).findSome? rawType with
  | none => typeOfKeys (iterCandidateDicts msg)
  | some .other => .other
  | some (.text raw) =>
      let raw := (lower (pyStrip raw)).map fun c => if c = '_' then '-' else c
      ((typeNames.find? fun t => t.2.any (·.toList = raw)).map Prod.fst).getD .other

/-- The front of the loop over the messages of a connection. -/
def readMsg (float : PyStr → Option PyFloat) (text : JsStr) : Option InMsg :=
  ((loads float text).bind asDictFirst).bind fun msg =>
    if msg.isEmpty then none
    else some
      ⟨inferMtype msg, extractSeqInt float msg, extractText msg, extractDelta msg,
        extractTMsInt float msg⟩

/-! ## What is sent -/

/-- An integer of less than 22 digits, as both languages write it. -/
def jsonInt (n : Int) : Value := .num (jsText (toString n))

def jsonText (s : String) : Value := .str (jsText s)

/-- The object for `transSend`. -/
def transObject : ServiceWorker.TransMsg → Value
  | .reset => .obj [(jsText "type", jsonText "reset")]
  | .baseline s => .obj [(jsText "type", jsonText "baseline"), (jsText "full", .str s.full),
      (jsText "seq", jsonInt s.seq), (jsText "t_ms", jsonInt s.tMs)]
  | .stable s => .obj [(jsText "type", jsonText "stable"), (jsText "full", .str s.full),
      (jsText "seq", jsonInt s.seq), (jsText "t_ms", jsonInt s.tMs)]

/-- What `transSend` puts on the socket. -/
def transText (msg : ServiceWorker.TransMsg) : JsStr := Json.Style.stringify.write (transObject msg)

/-- The object for `send_obj`. -/
def outObject : Out → Value
  | .viCommit append seq enSeq => .obj [(jsText "type", jsonText "vi-commit"),
      (jsText "append", .str append.toJs), (jsText "seq", jsonInt seq),
      (jsText "en_seq", jsonInt enSeq)]
  | .viDelta append seq enSeq => .obj [(jsText "type", jsonText "vi-delta"),
      (jsText "append", .str append.toJs), (jsText "seq", jsonInt seq),
      (jsText "en_seq", jsonInt enSeq)]
  | .viDraft text seq enSeq reqId => .obj [(jsText "type", jsonText "vi-draft"),
      (jsText "text", .str text.toJs), (jsText "seq", jsonInt seq),
      (jsText "en_seq", (enSeq.map jsonInt).getD .null), (jsText "req_id", jsonInt reqId)]

/-- `_safe_json_send` -/
def sendText (out : Out) : JsStr :=
  (Json.Style.dumps [] [] Json.white_nil Json.white_nil).write (outObject out)

end VTranser.Translator.Wire
