import GrpcWeb.Server.Wrapper

/-!
# The headers of a WebSocket upgrade

The request that the handler gets over a WebSocket has the headers of the first message and, below
them, the headers of the upgrade request that the allow-list names. Names of headers are the same in
every letter case: `net/http` puts those of a request into their canonical form, and so does the
parser of the first message. `HandleGrpcWebsocketRequest` looks the names of the list up as they
were configured.

`upgrade_headers_exact`: the handler gets what the list says (`HandsOver`) exactly when every header
of the upgrade request that the list names is in the list in its canonical form, and no header has
the name of the wildcard. `authorization_withheld` is a list in lower case.
-/

namespace GrpcWeb.Server

open Go Proxy

/-! ## What is to be delivered -/

/-- The list names the header, in some letter case. The wildcard of CORS names none. -/
def Allowed (allowedHeaders : List GoString) (k : GoString) : Prop :=
  ∃ name ∈ allowedHeaders, name ≠ ascii "*" ∧ sameName name k

instance (allowedHeaders : List GoString) (k : GoString) : Decidable (Allowed allowedHeaders k) :=
  inferInstanceAs (Decidable (∃ name ∈ allowedHeaders, _))

/-- The header is there, in some letter case. -/
def CarriesName (header : Header) (k : GoString) : Prop := ∃ k' ∈ header, sameName k' k

instance (header : Header) (k : GoString) : Decidable (CarriesName header k) :=
  decidable_of_iff (∃ k' ∈ header.keys, sameName k' k)
    (exists_congr fun _ => and_congr_left' Std.ExtTreeMap.mem_keys)

/-- The headers that are made anew for gRPC. -/
def Rewritten (k : GoString) : Prop := k = ascii "Content-Type" ∨ k = ascii "Content-Length"

instance (k : GoString) : Decidable (Rewritten k) := inferInstanceAs (Decidable (_ ∨ _))

/-- The headers of the first message, and those of the upgrade request that the list names and the
first message does not carry. -/
def HandsOver (allowedHeaders : List GoString) (upgrade wsHeaders headers : Header) : Prop :=
  ∀ k, ¬ Rewritten k → ∀ vs, headers[k]? = some vs ↔
    wsHeaders[k]? = some vs ∨
      (upgrade[k]? = some vs ∧ Allowed allowedHeaders k ∧ ¬ CarriesName wsHeaders k)

/-- The header of a request that `net/http` has read: the names are valid and in their canonical
form. -/
def FromNetHTTP (header : Header) : Prop :=
  ∀ k ∈ header, validHeaderFieldName k = true ∧ canonicalHeaderKey k = k

instance (header : Header) : Decidable (FromNetHTTP header) :=
  decidable_of_iff (∀ k ∈ header.keys, validHeaderFieldName k = true ∧ canonicalHeaderKey k = k)
    (forall_congr' fun _ => imp_congr_left Std.ExtTreeMap.mem_keys)

/-- The list has the header as `net/http` spells it, and the header is not named like the
wildcard. -/
def Spelled (allowedHeaders : List GoString) (k : GoString) : Prop :=
  (Allowed allowedHeaders k → k ∈ allowedHeaders) ∧ ¬ (k = ascii "*" ∧ k ∈ allowedHeaders)

instance (allowedHeaders : List GoString) (k : GoString) : Decidable (Spelled allowedHeaders k) :=
  inferInstanceAs (Decidable (_ ∧ _))

/-! ## Names -/

theorem eq_of_sameName_star {name : GoString} (h : sameName name (ascii "*")) :
    name = ascii "*" := by
  have key : ∀ c, toLowerByte c = 0x2A → c = 0x2A := forall_byte (by decide +kernel)
  have hstar : (ascii "*").map toLowerByte = [0x2A] := by decide
  rw [sameName, hstar] at h
  obtain ⟨c, rest, rfl, hc, hrest⟩ := List.map_eq_cons_iff.1 h
  rw [key c hc, List.map_eq_nil_iff.1 hrest]
  decide

theorem not_allowed_star (allowedHeaders : List GoString) :
    ¬ Allowed allowedHeaders (ascii "*") := by
  rintro ⟨name, -, hne, hsame⟩
  exact hne (eq_of_sameName_star hsame)

/-- A name is looked up as it should be when it is spelled in the list as `net/http` spells it. -/
theorem mem_iff_allowed {allowedHeaders : List GoString} {k : GoString} :
    (k ∈ allowedHeaders ↔ Allowed allowedHeaders k) ↔ Spelled allowedHeaders k := by
  constructor
  · intro h
    refine ⟨h.2, ?_⟩
    rintro ⟨rfl, hmem⟩
    exact not_allowed_star _ (h.1 hmem)
  · rintro ⟨hspelled, hstar⟩
    exact ⟨fun hmem => ⟨k, hmem, fun heq => hstar ⟨heq, hmem⟩, rfl⟩, hspelled⟩

/-- Of a header in canonical form, no other spelling of a name is there. -/
theorem carriesName_iff {header : Header} (hheader : header.Canonical) {k : GoString}
    (hvalid : validHeaderFieldName k = true) (hk : canonicalHeaderKey k = k) :
    CarriesName header k ↔ k ∈ header := by
  constructor
  · rintro ⟨k', hmem, hsame⟩
    have htoken : k.all isTokenByte = true := (Bool.and_eq_true _ _ ▸ hvalid).2
    have heq : k = k' := by
      rw [← hk, canonicalHeaderKey_eq_of_sameName htoken hsame.symm, hheader k' hmem]
    exact heq ▸ hmem
  · exact fun hmem => ⟨k, hmem, rfl⟩

/-! ## The header of the handler's request -/

theorem getElem?_allowedUpgradeHeaders {allowedHeaders : List GoString} {header : Header}
    {k : GoString} {vs : List GoString} :
    (allowedUpgradeHeaders allowedHeaders header)[k]? = some vs ↔
      k ∈ allowedHeaders ∧ header[k]? = some vs := by
  induction allowedHeaders using List.reverseRecOn with
  | nil => simp [allowedUpgradeHeaders]
  | append_singleton names name ih =>
    rw [allowedUpgradeHeaders, List.foldl_concat, ← allowedUpgradeHeaders]
    split
    · rename_i values hvalues
      rw [Header.getElem?_insert]
      by_cases hk : name = k
      · subst hk
        simp [hvalues]
      · rw [if_neg hk, ih, List.mem_append, List.mem_singleton, or_iff_left (Ne.symm hk)]
    · rename_i hnone
      rw [ih, List.mem_append, List.mem_singleton]
      by_cases hk : k = name
      · simp [hk, hnone]
      · rw [or_iff_left hk]

theorem getElem?_mergedHeaders {order : MapOrder} {headers wsHeaders : Header} {k : GoString}
    {vs : List GoString} :
    (mergedHeaders order headers wsHeaders)[k]? = some vs ↔
      wsHeaders[k]? = some vs ∨ (headers[k]? = some vs ∧ k ∉ wsHeaders) := by
  have hunique : ∀ e ∈ order.entries wsHeaders, ∀ e' ∈ order.entries wsHeaders, e.1 = e'.1 →
      e.2 = e'.2 := by
    rintro ⟨k, vs⟩ he ⟨k', vs'⟩ he' (rfl : k = k')
    rw [order.mem_entries] at he he'
    exact Option.some.inj (he.symm.trans he')
  rw [mergedHeaders, Header.getElem?_foldl_insert hunique, order.mem_entries]
  refine or_congr_right (and_congr_right fun _ => ?_)
  simp only [order.mem_entries]
  rw [Std.ExtTreeMap.mem_iff_isSome_getElem?, Option.isSome_iff_exists, not_exists]

/-- Apart from the two that it rewrites, `hackIntoNormalGrpcRequest` leaves the headers alone. -/
theorem getElem?_hackIntoNormalGrpcRequest (req : Request) {k : GoString} (hk : ¬ Rewritten k) :
    (hackIntoNormalGrpcRequest req).1.header[k]? = req.header[k]? := by
  have htype : canonicalHeaderKey (ascii "content-type") = ascii "Content-Type" := by decide
  have hlength : canonicalHeaderKey (ascii "content-length") = ascii "Content-Length" := by decide
  obtain ⟨hct, hcl⟩ := not_or.1 hk
  simp only [hackIntoNormalGrpcRequest, Std.ExtTreeMap.getElem?_erase,
    Std.LawfulEqOrd.compare_eq_iff_eq, hlength, Ne.symm hcl, if_false, Header.set,
    Header.getElem?_insert, htype, Ne.symm hct]

theorem handleGrpcWebsocketRequest_binary (w : WrappedGrpcServer) (order : MapOrder) (req : Request)
    {payload : Bytes} {wsHeaders : Header} (hparse : parseHeaders payload = .ok wsHeaders) :
    ∃ handled, w.handleGrpcWebsocketRequest order (some ⟨.binary, payload, none⟩) req =
      some handled ∧
      ∀ k, ¬ Rewritten k → ∀ vs, handled.header[k]? = some vs ↔
        wsHeaders[k]? = some vs ∨
          ((k ∈ w.allowedHeaders ∧ req.header[k]? = some vs) ∧ k ∉ wsHeaders) := by
  rw [WrappedGrpcServer.handleGrpcWebsocketRequest]
  simp only [hparse]
  refine ⟨_, rfl, fun k hk vs => ?_⟩
  rw [getElem?_hackIntoNormalGrpcRequest _ hk]
  exact getElem?_mergedHeaders.trans
    (or_congr_right (and_congr_left fun _ => getElem?_allowedUpgradeHeaders))

/-! ## When the handler gets what the list says -/

/-- **When the upgrade headers that are allowed reach the handler**: a first message of headers
makes a request for the handler, whose headers are those of the message and the ones that the list
names, exactly when each header of the upgrade request that is to be looked up is spelled in the
list as `net/http` spells it. -/
theorem upgrade_headers_exact (url : ParseRequestURI) (opts : Options) (endpoints : List GoString)
    (order : MapOrder) (req : Request) (hreq : FromNetHTTP req.header) (payload : Bytes)
    (wsHeaders : Header) (hparse : parseHeaders payload = .ok wsHeaders) :
    let w := wrapGrpc url opts endpoints
    ∃ handled, w.handleGrpcWebsocketRequest order (some ⟨.binary, payload, none⟩) req =
      some handled ∧
      (HandsOver w.allowedHeaders req.header wsHeaders handled.header ↔
        ∀ k ∈ req.header, ¬ Rewritten k → ¬ CarriesName wsHeaders k →
          Spelled w.allowedHeaders k) := by
  intro w
  obtain ⟨handled, hhandled, hget⟩ := handleGrpcWebsocketRequest_binary w order req hparse
  have hws : wsHeaders.Canonical := canonical_of_readMIMEHeader hparse
  refine ⟨handled, hhandled, ?_⟩
  constructor
  · intro hdelivers k hk hrewritten hcarries
    obtain ⟨hvalid, hcanonical⟩ := hreq k hk
    have hnot : k ∉ wsHeaders := mt (carriesName_iff hws hvalid hcanonical).2 hcarries
    have hnone : wsHeaders[k]? = none := Std.ExtTreeMap.getElem?_eq_none hnot
    obtain ⟨vs, hvs⟩ := Option.isSome_iff_exists.1 (Std.ExtTreeMap.mem_iff_isSome_getElem?.1 hk)
    have hboth := (hget k hrewritten vs).symm.trans (hdelivers k hrewritten vs)
    simp only [hnone, reduceCtorEq, false_or, hvs, and_true, true_and, hnot, not_false_eq_true,
      hcarries] at hboth
    exact mem_iff_allowed.1 hboth
  · intro hspelled k hrewritten vs
    rw [hget k hrewritten]
    refine or_congr_right ?_
    by_cases hvs : req.header[k]? = some vs
    · have hk : k ∈ req.header := Std.ExtTreeMap.mem_iff_isSome_getElem?.2 (by rw [hvs]; rfl)
      obtain ⟨hvalid, hcanonical⟩ := hreq k hk
      rw [carriesName_iff hws hvalid hcanonical]
      by_cases hcarries : k ∈ wsHeaders
      · simp [hcarries]
      · have hnot := mt (carriesName_iff hws hvalid hcanonical).1 hcarries
        have hlist := mem_iff_allowed.2 (hspelled k hk hrewritten hnot)
        simp only [hvs, and_true, true_and, hlist]
    · simp [hvs]

/-! ## A list in lower case -/

/-- A first message, as the client writes it. -/
def firstMessage : Bytes :=
  ascii "content-type: application/grpc-web+proto\r\nx-grpc-web: 1\r\n"

def firstHeaders : Header :=
  .ofList [(ascii "Content-Type", [ascii "application/grpc-web+proto"]),
    (ascii "X-Grpc-Web", [ascii "1"])]

/-- A request with credentials. -/
def authorizedRequest : Request :=
  { method := ascii "GET"
    path := ascii "/echo.Echo/Say"
    header := .ofList
      [(ascii "Authorization", [ascii "Bearer token"]), (ascii "U-A", [ascii "web"])] }

def canonicalOptions : Options := { allowedRequestHeaders := [ascii "Authorization"] }

def lowerCaseOptions : Options := { allowedRequestHeaders := [ascii "authorization"] }

theorem upgrade_headers_exact_canonical :
    ∃ handled, (wrapGrpc .split canonicalOptions []).handleGrpcWebsocketRequest .sorted
        (some ⟨.binary, firstMessage, none⟩) authorizedRequest = some handled ∧
      HandsOver (wrapGrpc .split canonicalOptions []).allowedHeaders authorizedRequest.header
        firstHeaders handled.header := by
  have hspelled : ∀ k ∈ authorizedRequest.header.keys,
      Spelled (wrapGrpc .split canonicalOptions []).allowedHeaders k := by decide +kernel
  obtain ⟨handled, hhandled, hiff⟩ := upgrade_headers_exact .split canonicalOptions [] .sorted
    authorizedRequest (by decide +kernel) firstMessage firstHeaders (by decide +kernel)
  exact ⟨handled, hhandled, hiff.2 fun k hk _ _ => hspelled k (Std.ExtTreeMap.mem_keys.2 hk)⟩

/-- **A list in lower case** names a header that the handler does not get. -/
theorem authorization_withheld :
    FromNetHTTP authorizedRequest.header ∧ parseHeaders firstMessage = .ok firstHeaders ∧
    ∃ handled, (wrapGrpc .split lowerCaseOptions []).handleGrpcWebsocketRequest .sorted
        (some ⟨.binary, firstMessage, none⟩) authorizedRequest = some handled ∧
      ¬ HandsOver (wrapGrpc .split lowerCaseOptions []).allowedHeaders authorizedRequest.header
        firstHeaders handled.header := by
  have hget : ((wrapGrpc .split lowerCaseOptions []).handleGrpcWebsocketRequest .sorted
      (some ⟨.binary, firstMessage, none⟩) authorizedRequest).map
        (fun handled => handled.header[ascii "Authorization"]?) = some none := by decide +kernel
  obtain ⟨handled, hhandled, hnone⟩ := Option.map_eq_some_iff.1 hget
  refine ⟨by decide +kernel, by decide +kernel, handled, hhandled, fun hdelivers => ?_⟩
  have hthere := (hdelivers (ascii "Authorization") (by decide) [ascii "Bearer token"]).2
    (.inr ⟨by decide +kernel, by decide, by decide +kernel⟩)
  rw [hnone] at hthere
  cases hthere

end GrpcWeb.Server
