import ItemStore.Store
import ItemStore.Wire.Request
import ItemStore.Wire.Response

/-!
# The service

A client names an operation and sends a body.  The name is looked at first: an unknown operation is
refused whatever its body.  The text of the response goes back to the client, or a report.
-/

namespace ItemStore

def Request.read (operation body : String) : Except Fault Request :=
  match Operation.ofName? operation with
  | none => .error (.unsupportedOperation operation)
  | some op => (Wire.decodeRequest op body).mapError .decodeFault

def Store.serve (s : Store) (stamp : Stamp) (operation body : String) :
    Except Fault Response × Store :=
  match Request.read operation body with
  | .ok request => s.answer stamp request
  | .error e => (.error e, s)

/-- Read a request, answer it and write the response.  The store is the one that the answer leaves,
whether or not the response can be written. -/
def Store.dispatch (s : Store) (stamp : Stamp) (operation body : String) :
    Except Report String × Store :=
  let (answer, s) := s.serve stamp operation body
  (answer.mapError Fault.report >>= Wire.writeResponse, s)

end ItemStore
