import Coalesce.Codec.Merger

/-!
# How shared calls are written

* `Codec`           one request a call; an object around a list; a bare list; or merged documents;
* `EncodedCall`     a body, the positions of the requests that it answers for, and the document that
                    it was made from, if it was merged;
* `Codec.encode`    the calls for some requests;
* `Codec.decode`    the results in a response, one for each of these positions.

A single request needs no merging, so its whole response is its result.
-/

namespace Coalesce

/-- How shared calls are written. -/
inductive Codec where
  | plain
  | legacy
  | array
  | single (merger : Merger)

/-- A document as it was made: in some round, and in some place among the documents of that. -/
structure Merged where
  document : MergedDocument
  round : Nat
  place : Nat

structure EncodedCall where
  body : Json
  members : List Nat
  merged : Option Merged := none

namespace Codec

/-- The codec of a style; merging needs a merger. -/
def ofStyle (style : Style) (merger : Option Merger) : Except Error Codec :=
  match style, merger with
  | .legacy, _ => .ok .legacy
  | .array, _ => .ok .array
  | .single, some m => .ok (.single m)
  | .single, none => .error (.configuration (.mergerMissing none))

def name : Codec → String
  | .plain => "plain"
  | .legacy => Style.legacy.name
  | .array => Style.array.name
  | .single _ => Style.single.name

/-- how a codec is shown in messages -/
def describe (c : Codec) : String := "Codec(" ++ c.name ++ ")"

/-- a call that answers for all requests in order -/
def covering (body : Json) (count : Nat) : EncodedCall := ⟨body, List.range count, none⟩

/-- the calls for the documents of a round -/
def merging (round : Nat) (documents : List MergedDocument) : List EncodedCall :=
  documents.zipIdx.map fun (d, place) => ⟨d.request.toJson, d.members, some ⟨d, round, place⟩⟩

/-- The calls for some requests.  The round is for a merger, and the others have no use for it. -/
def encode (c : Codec) (requests : List Request) (round : Nat := 0) : Outcome (List EncodedCall) :=
  match c, requests with
  | .plain, [r] | .single _, [r] => .done [covering r.toJson 1]
  | .plain, rs => .failed (.runtime (.tooManyRequests rs.length))
  | .legacy, rs =>
    .done [covering (.ofMembers [("requests", .array (rs.map Request.toJson))]) rs.length]
  | .array, rs => .done [covering (.array (rs.map Request.toJson)) rs.length]
  | .single m, rs => do
    let documents ← m.mergeChecked round rs
    return merging round documents

/-- the results in a bare list -/
def arrayResults (expected : Nat) : Json → Except Error (List Json)
  | .array results => .ok results
  | _ => .error (.malformed "array" expected .notArray)

/-- the results in entries, which are counted from `index` -/
def entryResults (expected : Nat) : Nat → List Json → Except Error (List Json)
  | _, [] => .ok []
  | index, entry :: rest =>
    match entry with
    | .object members =>
      match Members.get? "result" members with
      | some r => (entryResults expected (index + 1) rest).map (r :: ·)
      | none => .error (.malformed "legacy" expected (.entryWithoutResult index))
    | _ => .error (.malformed "legacy" expected (.entryNotObject index))

/-- the results in an object around a list -/
def legacyResults (expected : Nat) : Json → Except Error (List Json)
  | .object members =>
    match Members.get? "results" members with
    | some (.array results) => entryResults expected 0 results
    | _ => .error (.malformed "legacy" expected .noResults)
  | _ => .error (.malformed "legacy" expected .notObject)

/-- the results in a response, however many -/
def results (c : Codec) (call : EncodedCall) (response : Json) : Outcome (List Json) :=
  match c, call.merged with
  | .legacy, _ => .ofExcept (legacyResults call.members.length response)
  | .array, _ => .ofExcept (arrayResults call.members.length response)
  | .single m, some d => m.split d.round d.place d.document response
  | .plain, _ | .single _, none => .done [response]

/-- The results in a response, one for each request of the call. -/
def decode (c : Codec) (call : EncodedCall) (response : Json) : Outcome (List Json) := do
  let found ← c.results call response
  if found.length = call.members.length then return found
  else .failed (.protocol c.name call.members.length found.length none)

end Codec

end Coalesce
