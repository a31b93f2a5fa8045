import Anetd.Bytes

/-!
# What the sockets answer

The part of `boost::asio` and `boost::system` the library talks to: error
codes, the outcome of one read, and the ways a C++ call can end. A read
delivers between one byte and the size of the caller's buffer, or fails with
an error code and delivers nothing.
-/

namespace Anetd

/-- The error categories that the library tells apart, and the others it meets. -/
inductive Category where
  | system
  | misc
  | netdb
  | ssl
  deriving DecidableEq, Repr

/-- A `boost::system::error_code`. -/
structure ErrorCode where
  category : Category
  value : Int
  deriving DecidableEq, Repr

namespace ErrorCode

/-- A default-constructed error code: no error. -/
def success : ErrorCode := ⟨.system, 0⟩

/-- `boost::asio::error::eof`. -/
def eof : ErrorCode := ⟨.misc, 2⟩

/-- OpenSSL's `ERR_PACK`. -/
def errPack (lib func reason : Int) : Int := lib * 2 ^ 24 + func * 2 ^ 12 + reason

/-- `ERR_PACK(ERR_LIB_SSL, 0, SSL_R_SHORT_READ)`: the peer closed the
connection without the TLS closing alert. -/
def shortRead : Int := errPack 20 0 219

/-- The error code of the SSL category that `shortRead` is the value of. -/
def truncated : ErrorCode := ⟨.ssl, shortRead⟩

/-- The test that `sockget` and `disconnect` share: a failure of the SSL
category whose value is not the short-read code. -/
def sslFailure (ec : ErrorCode) : Bool :=
  ec.category = .ssl && ec.value ≠ shortRead

end ErrorCode

/-- What `throw` sends up the stack in this library. A `filesystem_error` is a
`system_error` too, but none whose code is `eof`: where one can be thrown, the
handlers pass it on. -/
inductive Exn where
  | systemError (ec : ErrorCode)
  | errorCode (ec : ErrorCode)
  | badLexicalCast
  | connectionException
  | iosFailure
  | filesystemError
  deriving DecidableEq, Repr

/-- The ways a call can end without returning: by an exception, by
`std::terminate`, in undefined behaviour (an index out of range), or not at
all, waiting for a read that is never answered. -/
inductive Stop where
  | threw (x : Exn)
  | terminated
  | undefined
  | blocked
  deriving DecidableEq, Repr

/-- The bytes one read delivers into a buffer of `cap` bytes. -/
structure Chunk (cap : Nat) where
  bytes : Bytes
  pos : 0 < bytes.length
  le : bytes.length ≤ cap

/-- The outcome of one read. -/
inductive Read (cap : Nat) where
  | data (c : Chunk cap)
  | error (ec : ErrorCode)

/-- A way to cut a byte string into reads. -/
structure Cut (cap : Nat) (bs : Bytes) where
  chunks : List (Chunk cap)
  join : (chunks.map Chunk.bytes).flatten = bs

namespace Cut

variable {cap : Nat} {bs : Bytes}

/-- All bytes in one read. -/
def whole (bs : Bytes) (hpos : 0 < bs.length) (hle : bs.length ≤ cap) : Cut cap bs :=
  ⟨[⟨bs, hpos, hle⟩], by simp only [List.map_cons, List.map_nil, List.flatten_cons,
    List.flatten_nil, List.append_nil]⟩

/-- Each byte in a read of its own. -/
def bytewise (hcap : 0 < cap) (bs : Bytes) : Cut cap bs where
  chunks := bs.map fun c => ⟨[c], Nat.one_pos, hcap⟩
  join := by
    induction bs with
    | nil => rfl
    | cons c cs ih => simpa only [List.map_cons, List.flatten_cons, List.singleton_append,
        List.cons.injEq, true_and] using ih

end Cut

/-- The reads of a cut, in order, and the error after them. -/
def Cut.reads {cap : Nat} {bs : Bytes} (cut : Cut cap bs) (ending : ErrorCode) :
    List (Read cap) :=
  cut.chunks.map .data ++ [.error ending]

end Anetd
