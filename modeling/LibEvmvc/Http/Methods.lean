import LibEvmvc.Foundation.Bytes

set_option autoImplicit false

/-! # Request methods and protocol versions

`evmvc::method`, its names, and the parser of `parse_method_reversed`, which is handed the method of
a request line backwards because the line is read from its end. -/

namespace LibEvmvc

/-- `evmvc::method`. -/
inductive Method where
  | get
  | head
  | post
  | put
  | del
  | options
  | trace
  | connect
  | patch
  | unknown
  deriving DecidableEq, Repr

/-- `evmvc::to_string`. -/
def Method.toBytes : Method → Bytes
  | .get => bytes "GET"
  | .head => bytes "HEAD"
  | .post => bytes "POST"
  | .put => bytes "PUT"
  | .del => bytes "DELETE"
  | .options => bytes "OPTIONS"
  | .trace => bytes "TRACE"
  | .connect => bytes "CONNECT"
  | .patch => bytes "PATCH"
  | .unknown => bytes "UNKNOWN"

/-- `s.size() >= n && !strncasecmp(name, ch - (n - 1), n)`, where `ch` is the last byte of `s` and
    `n` the length of `name`. -/
def endsWithFold (s name : Bytes) : Bool :=
  name.length ≤ s.length && lower (s.drop (s.length - name.length)) == name

/-- `evmvc::parse_method_reversed`: only the end of `s` is looked at, so `TEG` and `XTEG` are both
    `GET`. The name of `DELETE` is compared over seven bytes, the last of them its terminator. -/
def parseMethodReversed (s : Bytes) : Method :=
  match s.getLast? with
  | none => .unknown
  | some ch =>
    if ch = 71 || ch = 103 then -- GET
      if endsWithFold s (bytes "teg") then .get else .unknown
    else if ch = 80 || ch = 112 then -- POST, PUT, PATCH
      if endsWithFold s (bytes "tsop") then .post
      else if endsWithFold s (bytes "tup") then .put
      else if endsWithFold s (bytes "hctap") then .patch
      else .unknown
    else if ch = 67 || ch = 99 then -- CONNECT
      if endsWithFold s (bytes "tcennoc") then .connect else .unknown
    else if ch = 72 || ch = 104 then -- HEAD
      if endsWithFold s (bytes "deah") then .head else .unknown
    else if ch = 68 || ch = 100 then -- DELETE
      if endsWithFold s (bytes "eteled" ++ [0]) then .del else .unknown
    else if ch = 84 || ch = 116 then -- TRACE
      if endsWithFold s (bytes "ecart") then .trace else .unknown
    else if ch = 79 || ch = 111 then -- OPTIONS
      if endsWithFold s (bytes "snoitpo") then .options else .unknown
    else .unknown

/-- `evmvc::http_version`. -/
inductive HttpVersion where
  | unknown
  | http10
  | http11
  | http2
  deriving DecidableEq, Repr

example : parseMethodReversed (bytes "TEG") = .get := by decide

example : parseMethodReversed (bytes "ETELED") = .unknown := by decide

end LibEvmvc
