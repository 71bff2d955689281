import Ferron.Common.IpBlockList
import Mathlib.Data.List.DropRight

/-!
# Hostnames

Whether a configured hostname matches that of a request, and whether filters mean the local host.
-/

set_option autoImplicit false

namespace Ferron.Common

namespace IpAddr

/-- `is_loopback`. -/
def isLoopback : IpAddr → Bool
  | v4 address => address >>> 24 == 127
  | v6 address => address == 1

end IpAddr

/-- `strip_suffix`, or the text as it is. -/
def stripSuffix (suffix : Char) (s : Str) : Str :=
  if s.getLast? = some suffix then s.dropLast else s

/-- `match_hostname`. -/
def matchHostname (hostname reqHostname : Option Str) : Bool :=
  if hostname.isNone || hostname == some "*".toList then true
  else
    match hostname, reqHostname with
    | some hostname, some reqHostname =>
        if "*.".toList.isPrefixOf hostname && hostname != "*.".toList then
          let hostnamesRoot := hostname.drop 2
          reqHostname == hostnamesRoot || hostnamesRoot.length < reqHostname.length &&
            ('.' :: hostnamesRoot).isSuffixOf reqHostname
        else reqHostname == hostname
    | _, _ => false

/-- `is_localhost`. The parameter is `to_lowercase`. -/
def isLocalhost (toLowercase : Str → Str) (ip : Option IpAddr) (hostname : Option Str) : Bool :=
  ip.any (fun ip => ip.toCanonical.isLoopback) || hostname.any fun hostname =>
    let normalizedHostname := (toLowercase hostname).rdropWhile (· == '.')
    normalizedHostname == "localhost".toList ||
      ".localhost".toList.isSuffixOf normalizedHostname

end Ferron.Common
