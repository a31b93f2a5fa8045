import Anetd.Asio

/-!
# The response object

`HttpResponse` has the fields of `http_response` and its setters. Classes
derived from it override some of the virtual functions that the engine calls;
`ResponseClass` collects these calls, and the base class is its first
instance, with a `flush` and a `completed` that do nothing.
-/

namespace Anetd

/-- The state of a `http_response`. -/
structure HttpResponse where
  version : Bytes
  status : Int
  description : Bytes
  headers : StringMap
  bodySize : Nat
  body : Bytes
  progress : Nat
  url : Bytes
  sendheaders : StringMap
  httpauth : Bytes × Bytes
  deriving DecidableEq

namespace HttpResponse

/-- `http_response::reset`; the request headers and credentials stay. -/
def reset (r : HttpResponse) : HttpResponse :=
  { r with
    version := str "HTTP/1.0"
    status := 0
    description := str "OK"
    headers := ∅
    bodySize := 0
    body := []
    progress := 0
    url := [] }

/-- The constructor. -/
def new : HttpResponse :=
  reset ⟨[], 0, [], ∅, 0, [], 0, [], ∅, ([], [])⟩

def setVersion (r : HttpResponse) (ver : Bytes) : HttpResponse := { r with version := ver }

def setStatus (r : HttpResponse) (stat : Int) : HttpResponse := { r with status := stat }

def setDescription (r : HttpResponse) (desc : Bytes) : HttpResponse :=
  { r with description := desc }

/-- `std::map::insert`: a header that is already there stays. -/
def setHeaders (r : HttpResponse) (key val : Bytes) : HttpResponse :=
  { r with headers := r.headers.insert key val }

def getHeader (r : HttpResponse) (key : Bytes) : Bytes := (r.headers.find? key).getD []

def setBodySize (r : HttpResponse) (size : Nat) : HttpResponse := { r with bodySize := size }

/-- `setBody(char)`. -/
def setBody (r : HttpResponse) (c : Byte) : HttpResponse :=
  { r with body := r.body ++ [c], progress := r.progress + 1 }

def setURL (r : HttpResponse) (url : Bytes) : HttpResponse := { r with url := url }

/-- `ret.second` of the insertion says whether the name was new. -/
def setHeader (r : HttpResponse) (name value : Bytes) : Bool × HttpResponse :=
  if r.sendheaders.find? name = none then (false, r)
  else ((r.sendheaders.find? name).isNone,
    { r with sendheaders := r.sendheaders.insert name value })

def setHTTPAuth (r : HttpResponse) (username password : Bytes) : Bool × HttpResponse :=
  (true, { r with httpauth := (username, password) })

end HttpResponse

/-- A class derived from `http_response`: its base part, and the virtual
functions the engine calls that some class overrides. A `flush` that throws
leaves the object as it then is. -/
class ResponseClass (R : Type) where
  base : R → HttpResponse
  update : (HttpResponse → HttpResponse) → R → R
  reset : R → R
  setURL : R → Bytes → R
  flush : R → Except (Exn × R) R
  completed : R → R

export ResponseClass (base update)

instance : ResponseClass HttpResponse where
  base r := r
  update f r := f r
  reset := HttpResponse.reset
  setURL := HttpResponse.setURL
  flush := .ok
  completed r := r

/-- What the documentation asks of a derived class: that an override calls the
base function, and keeps to itself otherwise. -/
class LawfulResponse (R : Type) [ResponseClass R] : Prop where
  base_update (f : HttpResponse → HttpResponse) (r : R) : base (update f r) = f (base r)
  base_setURL (r : R) (url : Bytes) : base (ResponseClass.setURL r url) = (base r).setURL url
  base_flush {r r' : R} (h : ResponseClass.flush r = .ok r') :
    (base r').sendheaders = (base r).sendheaders ∧ (base r').httpauth = (base r).httpauth

instance : LawfulResponse HttpResponse where
  base_update _ _ := rfl
  base_setURL _ _ := rfl
  base_flush h := by
    cases h
    exact ⟨rfl, rfl⟩

section
variable (r : HttpResponse)

@[simp] theorem base_self : base r = r := rfl

@[simp] theorem update_self (f : HttpResponse → HttpResponse) : update f r = f r := rfl

@[simp] theorem flush_self : ResponseClass.flush r = .ok r := rfl

end

end Anetd
