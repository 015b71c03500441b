import LibEvmvc.Http.Headers

set_option autoImplicit false

/-! # Cookies of a response

`http_cookies_t` keeps the cookies a handler sets as `Set-Cookie` lines in a header map of their
own. -/

namespace LibEvmvc

inductive SameSite where
  | none
  | strict
  | lax
  deriving DecidableEq, Repr

inductive CookieEncoding where
  | clear
  | base64
  deriving DecidableEq, Repr

/-- `http_cookies_t::options`; `expires` is the date as it is printed. -/
structure CookieOptions where
  expires : Option Bytes := none
  maxAge : Int := -1
  domain : Bytes := []
  path : Bytes := []
  secure : Bool := false
  httpOnly : Bool := true
  site : SameSite := .none
  enc : CookieEncoding := .base64
  deriving DecidableEq, Repr

/-- The text `http_cookies_t::_set` stores. -/
def cookieText (base64 : Bytes → Bytes) (name val : Bytes) (opts : CookieOptions) : Bytes :=
  let encV := match opts.enc with
    | .base64 => base64 val
    | .clear => val
  let cv := name ++ bytes "=" ++ encV ++ bytes "; "
  let cv := match opts.expires with
    | some date => if opts.maxAge < 0 then cv ++ bytes "Expires=" ++ date ++ bytes " GMT; " else cv
    | none => cv
  let cv := if opts.maxAge > -1 then cv ++ bytes "Max-Age=" ++ bytes (toString opts.maxAge) ++
    bytes "; " else cv
  let cv := if opts.domain.length > 0 then cv ++ bytes "Domain=" ++ opts.domain ++ bytes "; " else cv
  let cv := if opts.path.length > 0 then cv ++ bytes "Path=" ++ opts.path ++ bytes "; " else cv
  let cv := if opts.secure then cv ++ bytes "Secure; " else cv
  let cv := if opts.httpOnly then cv ++ bytes "HttpOnly; " else cv
  match opts.site with
  | .none => cv
  | .strict => cv ++ bytes "SameSite=Strict; "
  | .lax => cv ++ bytes "SameSite=Lax; "

def setCookieName : Bytes := bytes "Set-Cookie"

/-- `http_cookies_t::_set`, on the outgoing headers. -/
def setCookie (base64 : Bytes → Bytes) (outHdrs : HeaderMap) (name val : Bytes)
    (opts : CookieOptions) : HeaderMap :=
  outHdrs.set setCookieName (cookieText base64 name val opts) false

end LibEvmvc
