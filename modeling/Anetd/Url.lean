import Anetd.Bytes
import Anetd.Lib.Regex

/-!
# The URL expressions

`url_expression` and `proxy_expression` of `http_engine::send`, with the groups
in the order in which `regex_split` emits them. It emits the groups of every
match; the ones of later matches are behind those that `send` reads.
-/

namespace Anetd

open Lib (Regex)

/-- `\w`. -/
def isWord (c : Byte) : Bool :=
  (65 ≤ c && c ≤ 90) || (97 ≤ c && c ≤ 122) || Lib.Decimal.isDigit c || c = 95

/-- Any byte but those of a literal. -/
def noneOf (s : String) : Regex := .chars fun c => !(str s).contains c

def literal (s : String) : Regex := .all ((str s).map Regex.char)

/-- `^(?:([^:/?#]+)://)?(\w+[^/?#:]*)(?::(\d+))?`, in parts. -/
def authority : List Regex := [
  .lineStart,
  .opt (.seq (.group 1 (.plus (noneOf ":/?#"))) (literal "://")),
  .group 2 (.seq (.plus (.chars isWord)) (.star (noneOf "/?#:"))),
  .opt (.seq (literal ":") (.group 3 (.plus (.chars Lib.Decimal.isDigit))))]

/-- `proxy_expression`. -/
def proxyExpression : Regex := .all authority

/-- `url_expression`: behind the authority,
`(/?(?:[^?#/]*/)*)?([^?#]*)?(\?(.*))?`. -/
def urlExpression : Regex := .all (authority ++ [
  .opt (.group 4 (.seq (.opt (literal "/"))
    (.star (.seq (.star (noneOf "?#/")) (literal "/"))))),
  .opt (.group 5 (.star (noneOf "?#"))),
  .opt (.group 6 (.seq (literal "?") (.group 7 (.star (.chars fun _ => true)))))])

/-- The string a group emits; an empty one when it took no part in the match. -/
def part (captures : Regex.Captures) (i : Nat) : Bytes := (captures i).getD []

/-- The elements of `url_parts` that `send` reads, from index 0 to 5. -/
structure UrlParts where
  protocol : Bytes
  host : Bytes
  port : Bytes
  directory : Bytes
  file : Bytes
  query : Bytes
  deriving DecidableEq, Repr

/-- `url_parts` of a URL; `none` when it stays empty. -/
def urlParts (url : Bytes) : Option UrlParts :=
  (urlExpression.search url).map fun m =>
    ⟨part m 1, part m 2, part m 3, part m 4, part m 5, part m 6⟩

/-- The elements of `proxy_parts`. -/
structure ProxyParts where
  protocol : Bytes
  host : Bytes
  port : Bytes
  deriving DecidableEq, Repr

def proxyParts (proxy : Bytes) : Option ProxyParts :=
  (proxyExpression.search proxy).map fun m => ⟨part m 1, part m 2, part m 3⟩

/-- `boost::algorithm::to_lower`. -/
def toLower (s : Bytes) : Bytes := s.map fun c => if 65 ≤ c && c ≤ 90 then c + 32 else c

example : urlParts (str "HTTP://a.example:80/d/f?q#x") =
    some ⟨str "HTTP", str "a.example", str "80", str "/d/", str "f", str "?q#x"⟩ := by decide

end Anetd
