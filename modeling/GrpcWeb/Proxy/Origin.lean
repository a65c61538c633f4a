import GrpcWeb.Go.Header

/-!
# The origin checks of the proxy

The proxy checks the origin of a request against the list of its `--allowed_origins` flag: for an
HTTP request with the function of `makeHttpOriginFunc`, for a WebSocket request with that of
`makeWebsocketOriginFunc`. The first looks up the value of the `Origin` header, the second the host
that `url.ParseRequestURI` finds in it, which stays a parameter (`ParseRequestURI`).

`same_policy_iff` says for which lists and origins the two checks agree, and
`websocket_refuses_listed` that a list of origins, as the documentation writes it, admits none of
them over a WebSocket.
-/

namespace GrpcWeb.Proxy

open Go

/-- A web origin: a scheme, a host and, when it is not that of the scheme, a port. -/
structure Origin where
  scheme : GoString
  hostname : GoString
  port : Option GoString
  deriving DecidableEq

namespace Origin

/-- The host with its port. -/
def host (o : Origin) : GoString :=
  match o.port with
  | none => o.hostname
  | some port => o.hostname ++ ascii ":" ++ port

/-- The value of an `Origin` header. -/
def serialize (o : Origin) : GoString := o.scheme ++ ascii "://" ++ o.host

def isLowerLetter (c : UInt8) : Bool := 0x61 ≤ c && c ≤ 0x7A

def isDigit (c : UInt8) : Bool := 0x30 ≤ c && c ≤ 0x39

/-- A scheme of a URI, in lower case. -/
def isScheme (s : GoString) : Bool :=
  s.head?.any isLowerLetter &&
    s.all fun c => isLowerLetter c || isDigit c || (ascii "+-.").contains c

/-- A domain or an address, or the address of an IPv6 host in brackets. -/
def isHostname (h : GoString) : Bool :=
  h ≠ [] &&
    (h.all (fun c => isLowerLetter c || isDigit c || (ascii "-._").contains c) ||
      (h.head? = some 0x5B && h.getLast? = some 0x5D &&
        h.tail.dropLast.all fun c => (0x61 ≤ c && c ≤ 0x66) || isDigit c || c == 0x3A))

/-- The parts are those of a web origin. -/
def IsWeb (o : Origin) : Prop :=
  isScheme o.scheme = true ∧ isHostname o.hostname = true ∧
    ∀ port ∈ o.port, port ≠ [] ∧ port.all isDigit = true

instance (o : Origin) : Decidable o.IsWeb :=
  inferInstanceAs (Decidable (_ ∧ _ ∧ ∀ port ∈ o.port, _))

end Origin

/-- The parts of a `url.URL` that the check looks at. -/
structure URL where
  scheme : GoString
  host : GoString
  deriving DecidableEq

/-- `url.ParseRequestURI`, with its documented behaviour on web origins. -/
structure ParseRequestURI where
  parse : GoString → Except GoString URL
  parse_origin (o : Origin) (h : o.IsWeb) : parse o.serialize = .ok ⟨o.scheme, o.host⟩

/-- `h.Get(key)`. -/
def headerGet (h : Header) (key : GoString) : GoString :=
  ((h[canonicalHeaderKey key]?).bind List.head?).getD []

/-! ## The checks -/

/-- The set of the allowed origins. -/
structure AllowedOrigins where
  origins : Std.ExtTreeMap GoString Unit compare

def makeAllowedOrigins (origins : List GoString) : AllowedOrigins :=
  ⟨origins.foldl (fun o allowedOrigin => o.insert allowedOrigin ()) ∅⟩

def AllowedOrigins.isAllowed (a : AllowedOrigins) (origin : GoString) : Bool :=
  a.origins[origin]?.isSome

def makeHttpOriginFunc (flagAllowAllOrigins : Bool) (allowedOrigins : AllowedOrigins) :
    GoString → Bool :=
  if flagAllowAllOrigins then fun _ => true else allowedOrigins.isAllowed

/-- The host that a WebSocket request comes from. The error carries the origin and the error of the
parser. -/
def websocketRequestOrigin (url : ParseRequestURI) (req : Header) :
    Except (GoString × GoString) GoString :=
  let origin := headerGet req (ascii "Origin")
  match url.parse origin with
  | .error err => .error (origin, err)
  | .ok parsed => .ok parsed.host

def makeWebsocketOriginFunc (url : ParseRequestURI) (flagAllowAllOrigins : Bool)
    (allowedOrigins : AllowedOrigins) : Header → Bool :=
  if flagAllowAllOrigins then fun _ => true
  else fun req =>
    match websocketRequestOrigin url req with
    | .error _ => false
    | .ok origin => allowedOrigins.isAllowed origin

/-! ## Whether they agree -/

/-- The set has the entries of the list. -/
theorem isAllowed_makeAllowedOrigins (origins : List GoString) (origin : GoString) :
    (makeAllowedOrigins origins).isAllowed origin = true ↔ origin ∈ origins := by
  have key (o : Std.ExtTreeMap GoString Unit compare) :
      (origins.foldl (fun o allowedOrigin => o.insert allowedOrigin ()) o)[origin]?.isSome = true ↔
        origin ∈ origins ∨ o[origin]?.isSome = true := by
    induction origins generalizing o with
    | nil => simp
    | cons a origins ih =>
      rw [List.foldl_cons, ih, Std.ExtTreeMap.getElem?_insert]
      simp only [Std.LawfulEqOrd.compare_eq_iff_eq, List.mem_cons]
      by_cases ha : a = origin
      · simp [ha]
      · simp [ha, Ne.symm ha]
  rw [AllowedOrigins.isAllowed, makeAllowedOrigins, key]
  simp

/-- The WebSocket check looks up the host. -/
theorem makeWebsocketOriginFunc_eq (url : ParseRequestURI) (allowedOrigins : AllowedOrigins)
    {o : Origin} (ho : o.IsWeb) {req : Header}
    (hreq : headerGet req (ascii "Origin") = o.serialize) :
    makeWebsocketOriginFunc url false allowedOrigins req = allowedOrigins.isAllowed o.host := by
  simp only [makeWebsocketOriginFunc, websocketRequestOrigin, hreq, url.parse_origin o ho,
    Bool.false_eq_true, if_false]

/-- **When the two checks agree on an origin**: when the list has both the origin and its bare host,
or neither. -/
theorem same_policy_iff (url : ParseRequestURI) (origins : List GoString) {o : Origin}
    (ho : o.IsWeb) {req : Header} (hreq : headerGet req (ascii "Origin") = o.serialize) :
    makeWebsocketOriginFunc url false (makeAllowedOrigins origins) req =
        makeHttpOriginFunc false (makeAllowedOrigins origins) o.serialize ↔
      (o.host ∈ origins ↔ o.serialize ∈ origins) := by
  rw [makeWebsocketOriginFunc_eq url _ ho hreq, makeHttpOriginFunc, Bool.eq_iff_iff,
    ← isAllowed_makeAllowedOrigins, ← isAllowed_makeAllowedOrigins]
  rfl

/-! ## Lists of origins -/

theorem slash_not_mem_hostname {h : GoString} (hh : Origin.isHostname h = true) : 0x2F ∉ h := by
  intro hmem
  rw [Origin.isHostname, Bool.and_eq_true, Bool.or_eq_true] at hh
  rcases hh.2 with hall | hbracket
  · exact absurd (List.all_eq_true.1 hall _ hmem) (by decide)
  · simp only [Bool.and_eq_true, decide_eq_true_eq] at hbracket
    obtain ⟨⟨hhead, hlast⟩, hall⟩ := hbracket
    obtain ⟨t, rfl⟩ : ∃ t, h = 0x5B :: t := by
      rcases h with _ | ⟨c, t⟩
      · cases hhead
      · exact ⟨t, by rw [Option.some.inj hhead]⟩
    rcases t.eq_nil_or_concat' with rfl | ⟨inner, c, rfl⟩
    · cases hlast
    · have hc : c = 0x5D := by
        rw [← List.cons_append, List.getLast?_concat] at hlast
        exact Option.some.inj hlast
      have hinner : 0x2F ∈ inner := by simpa [hc] using hmem
      have hget := List.all_eq_true.1 hall 0x2F (by simpa using hinner)
      revert hget
      decide

/-- A host has no slash. -/
theorem slash_not_mem_host {o : Origin} (ho : o.IsWeb) : 0x2F ∉ o.host := by
  obtain ⟨-, hname, hport⟩ := ho
  unfold Origin.host
  split
  · exact slash_not_mem_hostname hname
  · rename_i port heq
    obtain ⟨-, hdigits⟩ := hport port heq
    intro hmem
    simp only [List.mem_append] at hmem
    rcases hmem with (hmem | hmem) | hmem
    · exact slash_not_mem_hostname hname hmem
    · revert hmem
      decide
    · exact absurd (List.all_eq_true.1 hdigits _ hmem) (by decide)

/-- **Of a list of web origins the WebSocket check admits none**, as it looks up hosts only. -/
theorem websocket_refuses_listed (url : ParseRequestURI) {origins : List GoString}
    (horigins : ∀ l ∈ origins, ∃ o : Origin, l = o.serialize) {o : Origin} (ho : o.IsWeb)
    {req : Header} (hreq : headerGet req (ascii "Origin") = o.serialize) :
    makeWebsocketOriginFunc url false (makeAllowedOrigins origins) req = false := by
  rw [makeWebsocketOriginFunc_eq url _ ho hreq, ← Bool.not_eq_true, isAllowed_makeAllowedOrigins]
  intro hmem
  obtain ⟨o', heq⟩ := horigins _ hmem
  refine slash_not_mem_host ho ?_
  rw [heq, Origin.serialize]
  have hsep : (0x2F : UInt8) ∈ ascii "://" := by decide
  exact List.mem_append_left _ (List.mem_append_right _ hsep)

/-! ## An instance of the parser -/

/-- Cut an origin at its first `://`. -/
def splitOrigin (s : GoString) : Except GoString URL :=
  match cut (ascii "://") s with
  | none => .error (ascii "invalid URI for request")
  | some (scheme, host) => .ok ⟨scheme, host⟩

theorem cut_scheme {scheme : GoString} (h : 0x3A ∉ scheme) (host : GoString) :
    cut (ascii "://") (scheme ++ ascii "://" ++ host) = some (scheme, host) := by
  induction scheme with
  | nil => exact cut_append_self _ host
  | cons c scheme ih =>
    obtain ⟨hc, hs⟩ := not_or.1 (mt List.mem_cons.2 h)
    have hfirst : (ascii "://").isPrefixOf (c :: (scheme ++ ascii "://" ++ host)) = false := by
      have hsep : ascii "://" = [0x3A, 0x2F, 0x2F] := by decide
      simp [hsep, List.isPrefixOf, hc]
    rw [List.cons_append, List.cons_append, cut, hfirst, ih hs]
    rfl

/-- A parser of web origins. -/
def ParseRequestURI.split : ParseRequestURI where
  parse := splitOrigin
  parse_origin o h := by
    have hcolon : 0x3A ∉ o.scheme := by
      have hscheme := h.1
      rw [Origin.isScheme, Bool.and_eq_true] at hscheme
      exact fun hmem => absurd (List.all_eq_true.1 hscheme.2 _ hmem) (by decide)
    rw [splitOrigin, Origin.serialize, cut_scheme hcolon]

/-- A request from `https://example.org`. -/
def exampleOrigin : Origin := ⟨ascii "https", ascii "example.org", none⟩

def exampleRequest : Header := (∅ : Header).set (ascii "Origin") exampleOrigin.serialize

theorem same_policy_iff_example :
    makeWebsocketOriginFunc .split false
        (makeAllowedOrigins [ascii "https://example.org", ascii "example.org"]) exampleRequest =
        makeHttpOriginFunc false
          (makeAllowedOrigins [ascii "https://example.org", ascii "example.org"])
          exampleOrigin.serialize ↔
      (exampleOrigin.host ∈ [ascii "https://example.org", ascii "example.org"] ↔
        exampleOrigin.serialize ∈ [ascii "https://example.org", ascii "example.org"]) :=
  same_policy_iff .split _ (by decide +kernel) (by decide +kernel)

/-- **The listed origin of the documentation** is admitted over HTTP and refused over a
WebSocket. -/
theorem listed_origin_refused :
    makeHttpOriginFunc false (makeAllowedOrigins [ascii "https://example.org"])
        exampleOrigin.serialize = true ∧
      makeWebsocketOriginFunc .split false (makeAllowedOrigins [ascii "https://example.org"])
        exampleRequest = false := by
  decide +kernel

end GrpcWeb.Proxy
