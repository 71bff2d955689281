import Ferron.Http.Header

/-!
# Requests

The parts of a request that the modules read. A method is a token, so it has no space; the path of a
URI ends before the first question mark.
-/

set_option autoImplicit false

namespace Ferron.Http

/-- A request method. -/
@[ext] structure Method where
  token : Str
  no_space : ' ' ∉ token
  deriving DecidableEq

namespace Method

/-- `Method::GET`. -/
def get : Method := ⟨"GET".toList, by decide⟩

/-- `Method::HEAD`. -/
def head : Method := ⟨"HEAD".toList, by decide⟩

/-- `Method::POST`. -/
def post : Method := ⟨"POST".toList, by decide⟩

/-- `Method::OPTIONS`. -/
def options : Method := ⟨"OPTIONS".toList, by decide⟩

end Method

/-- The path and the query of a request target. -/
structure Uri where
  path : Str
  query : Option Str
  path_no_question : '?' ∉ path
  deriving DecidableEq

theorem rootPath_no_question : '?' ∉ ['/'] := by simp

/-- `Version`. -/
inductive Version where
  | http09
  | http10
  | http11
  | http2
  | http3
  deriving DecidableEq

/-- The head of a request. -/
structure Request where
  method : Method
  uri : Uri
  headers : HeaderMap
  deriving DecidableEq

end Ferron.Http
