import Mst5Client.TextParts

set_option autoImplicit false

/-!
# Configured endpoints

`parse_endpoint` and `parse_m5oh_endpoint` of `lib.rs`, `host_header` of `m5oh.rs` and
`select_endpoint` of `messenger.rs`, over texts as lists of characters. How the standard library
reads a `SocketAddrV4` is a parameter.
-/
namespace Mst5Client.Endpoints
open ByteOrder IoResult HttpResponses TextParts
open AccountClient (isWhiteSpace isControl)

abbrev Text := List Char

structure SocketAddrV4 where
  octets : Block 4
  port : UInt16
deriving DecidableEq

structure Endpoint where
  host : Text
  port : ℕ
  tls : Bool
  route : Option Text
deriving DecidableEq

structure ParsedEndpoint where
  address : Text
  route : Option Text
  m5oh : Option Endpoint
deriving DecidableEq

def parsePort (port : Text) : Except IoError ℕ :=
  match parseUnsigned 65536 port with
  | none => .error (invalidInput "invalid M5oH endpoint port")
  | some port => .ok port

def hostAndPort (defaultPort : ℕ) (address : Text) : Except IoError (Text × ℕ) :=
  match stripPrefix ['['] address with
  | some inner =>
    match splitOnce ']' inner with
    | none => .error (invalidInput "invalid M5oH IPv6 endpoint")
    | some (host, port) =>
      match stripPrefix [':'] port with
      | some [] => .error (invalidInput "invalid M5oH IPv6 endpoint")
      | some (c :: port) => (parsePort (c :: port)).map fun port => (host, port)
      -- whatever else follows the bracket is dropped here
      | none => .ok (host, defaultPort)
  | none =>
    match rsplitOnce ':' address with
    | some (host, port) =>
      if ':' ∈ host then .error (invalidInput "M5oH IPv6 endpoints must use brackets")
      else (parsePort port).map fun port => (host, port)
    | none => .ok (address, defaultPort)

variable (socketAddr : Text → Option SocketAddrV4)

def packetDestination (route : Text) : Option SocketAddrV4 :=
  (socketAddr route).filter fun address => address.port ≠ 0

def addressAndRoute (value : Text) : Except IoError (Text × Option Text) :=
  match splitOnce '/' value with
  | some (address, []) => .ok (address, none)
  | some (address, c :: route) =>
    if (packetDestination socketAddr (c :: route)).isNone then
      .error (invalidInput "M5oH endpoint must use an IP:port packet destination")
    else .ok (address, some (c :: route))
  | none => .ok (value, none)

def badAddress (address : Text) : Bool :=
  address = [] ∨ '/' ∈ address ∨ address.any fun c => isWhiteSpace c || isControl c

def parseM5ohEndpoint (value : Text) (defaultPort : ℕ) (tls : Bool) :
    Except IoError (Endpoint × Option Text) := do
  let (address, route) ← addressAndRoute socketAddr value
  if badAddress address then .error (invalidInput "invalid M5oH endpoint")
  else
    let (host, port) ← hostAndPort defaultPort address
    if host = [] ∨ port = 0 then .error (invalidInput "invalid M5oH endpoint")
    else .ok (⟨host, port, tls, route⟩, route)

def endpointSocketAddress (value : Text) (defaultPort : ℕ) : Except IoError Text :=
  if value = [] ∨ '/' ∈ value then .error (invalidInput "invalid MST5 endpoint address")
  else if ['['] <+: value then
    .ok (if [']', ':'] <:+: value then value else value ++ ':' :: digits defaultPort)
  else .ok (if (rsplitOnce ':' value).isSome then value else value ++ ':' :: digits defaultPort)

def isRouteByte (c : Char) : Bool := c.isLower || c.isDigit || c = '.' || c = '_' || c = '-'

/-- Only ASCII passes, so that the bytes of an accepted route are its characters. -/
def validateRouteId (route : Text) : Except IoError Unit :=
  match route with
  | [] => .error (invalidInput "invalid MST5 route ID")
  | first :: _ =>
    if (String.ofList route).utf8ByteSize ≤ 63 ∧ first.isLower ∧ route.all isRouteByte then .ok ()
    else .error (invalidInput "invalid MST5 route ID")

def parseEndpoint (endpoint : Text) : Except IoError ParsedEndpoint :=
  let value := trimEndMatches '/' (trimText endpoint)
  match stripPrefix "https://".toList value with
  | some address => (parseM5ohEndpoint socketAddr address 443 true).map fun parsed =>
    ⟨[], parsed.2, some parsed.1⟩
  | none =>
    match stripPrefix "http://".toList value with
    | some address => (parseM5ohEndpoint socketAddr address 80 false).map fun parsed =>
      ⟨[], parsed.2, some parsed.1⟩
    | none =>
      if "tcps://".toList <+: value then
        .error (invalidInput
          "MST5 endpoint must use tcp://host:port, mst5://host:port/route, http://host, or https://host")
      else
        match stripPrefix "mst5://".toList value with
        | some routed =>
          match splitOnce '/' routed with
          | none => .error (invalidInput "routed MST5 endpoint is missing route ID")
          | some (address, route) => do
            validateRouteId route
            let address ← endpointSocketAddress address 8067
            .ok ⟨address, some route, none⟩
        | none =>
          let value := (stripPrefix "tcp://".toList value).getD value
          if value = [] ∨ '/' ∈ value then .error (invalidInput "invalid MST5 endpoint")
          else (endpointSocketAddress value 8080).map fun address => ⟨address, none, none⟩

def defaultPortOf (tls : Bool) : ℕ := if tls then 443 else 80

def Endpoint.hostHeader (e : Endpoint) : Text :=
  if e.tls ∧ e.port = 443 ∨ ¬ e.tls ∧ e.port = 80 then e.host
  else if ':' ∈ e.host then '[' :: e.host ++ ']' :: ':' :: digits e.port
  else e.host ++ ':' :: digits e.port

inductive TransportMode where
  | auto
  | mst5
  | m5oh
deriving DecidableEq, Repr

def candidates (configured : Text) : List Text :=
  ((configured.splitOn '|').map trimText).filter (· ≠ [])

def isM5oh (candidate : Text) : Bool :=
  "http://".toList <+: candidate.map Char.toLower || "https://".toList <+: candidate.map Char.toLower

def select : TransportMode → List Text → List Text
  | .auto, candidates => candidates.filter (!isM5oh ·) ++ candidates.filter isM5oh
  | .mst5, candidates => candidates.filter (!isM5oh ·)
  | .m5oh, candidates => candidates.filter isM5oh

def TransportMode.emptyMessage : TransportMode → String
  | .auto => "MST5 endpoint list is empty"
  | .mst5 => "no MST5 endpoint is configured"
  | .m5oh => "no M5oH endpoint is configured"

def selectEndpoint (configured : Text) (mode : TransportMode) : Except IoError Text :=
  if candidates configured = [] then .error (invalidInput "MST5 endpoint list is empty")
  else if select mode (candidates configured) = [] then .error (invalidInput mode.emptyMessage)
  else .ok (['|'].intercalate (select mode (candidates configured)))

end Mst5Client.Endpoints
