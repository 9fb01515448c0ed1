import Mathlib.Data.List.TakeWhile
import Gatekeeper.Agent.SignedRequests

/-!
# Requests as they are sent

What `createApp` of `a2a-server.mjs` puts before the middleware, and what a request says where it
is sent: its authority in the `Host` header, its path in the target, its body in bytes. The
middleware reads the first two off a URL that it puts together, and the third off the text that
the parser of bodies kept.
-/

namespace Gatekeeper.Agent

open Encoding Js Pattern Text

/-! ## Bodies -/

/-- The body of a request, with the headers that say how to read it. -/
structure Content where
  contentType : Option Line
  contentEncoding : Option Line
  bytes : Bytes

/-- What `express.json` does with a body: it answers the request itself, goes on without it, or
reads these bytes, decompressed. -/
inductive BodyRead where
  | refused
  | skipped
  | read (buf : Bytes)

abbrev BodyParser : Type := Content → BodyRead

/-- The documented behaviour: without a body there is nothing to read, and JSON that is declared so
is read as it came. -/
structure BodyParser.Lawful (parse : BodyParser) : Prop where
  empty : parse ⟨none, none, []⟩ = .skipped
  json : parse ⟨some ⟨"application/json", by decide⟩, none, utf8 "\x7b\x7d"⟩ =
    .read (utf8 "\x7b\x7d")

/-- What is in `rawBody` behind `express.json({ verify })`, which puts `buf.toString("utf8")` there.
There is no request to go on with where the parser has answered. -/
def keptBody (parse : BodyParser) (content : Content) : Option (Option Bytes) :=
  match parse content with
  | .refused => none
  | .skipped => some none
  | .read buf => some (some (utf8 (fromUtf8Lossy buf)))

/-! ## Requests -/

/-- A request as it is sent. -/
structure WireRequest extends RequestHead where
  content : Content

/-- What the middleware finds of a request, where the parser of bodies lets it through. -/
def handedOn (parse : BodyParser) (w : WireRequest) : Option Incoming :=
  (keptBody parse w.content).map fun rawBody => { w.toRequestHead with rawBody }

theorem handedOn_eq_some {parse : BodyParser} {w : WireRequest} {req : Incoming} :
    handedOn parse w = some req ↔
      req.toRequestHead = w.toRequestHead ∧ keptBody parse w.content = some req.rawBody := by
  rw [handedOn, Option.map_eq_some_iff]
  constructor
  · rintro ⟨rawBody, hkept, rfl⟩
    exact ⟨rfl, hkept⟩
  · rintro ⟨hhead, hkept⟩
    refine ⟨_, hkept, ?_⟩
    rw [← hhead]

/-- The path of a URL, which is never empty. -/
def pathOf (u : Url) : String := if u.pathname = "" then "/" else u.pathname

/-- What ends the authority in a URL, or the name of a user in it. -/
def endsAuthority (c : Char) : Bool := c ∈ ['/', '\\', '?', '#', '@']

/-- The authority that a `Host` header names, written as in URLs of a scheme. -/
def authorityOf (P : SigPlatform) (scheme : String) (host : Option Line) : Option String := do
  let line ← host
  if line.text.toList.any endsAuthority then none
  else
    let u ← P.parseUrl s!"{scheme}://{line.text}/"
    return u.host

/-- What ends the path in a target. -/
def endsPath (c : Char) : Bool := c ∈ ['?', '#']

/-- The path of a target. -/
def targetPath (target : String) : String :=
  String.ofList (target.toList.takeWhile fun c => !endsPath c)

/-- The middleware reads the request as it was sent: the URL that it puts together has the
authority of the `Host` header and the path of the target, and the text that was kept has the
bytes of the body. -/
structure AsSent (P : SigPlatform) (scheme : String) (w : WireRequest) (req : Incoming) : Prop where
  url : ∃ v, P.parseUrl (requestUrl req) = some v ∧ authorityOf P scheme w.host = some v.host ∧
    targetPath w.originalUrl.text = pathOf v
  body : req.body = w.content.bytes

/-! ## Addresses -/

/-- What the URL standard says of `http` and `https` URLs: a host and a path end where the next part
starts, a host is read back alone, a query is part of neither, and short names are hosts. -/
structure SigPlatform.ReadsAddresses (P : SigPlatform) : Prop where
  host_plain {scheme rest : String} {u : Url} : scheme = "http" ∨ scheme = "https" →
    P.parseUrl s!"{scheme}://{rest}" = some u → u.host.toList.any endsAuthority = false
  path_plain {scheme rest : String} {u : Url} : scheme = "http" ∨ scheme = "https" →
    P.parseUrl s!"{scheme}://{rest}" = some u →
    u.pathname ≠ "" ∧ u.pathname.toList.any endsPath = false
  host_alone {scheme rest : String} {u : Url} : scheme = "http" ∨ scheme = "https" →
    P.parseUrl s!"{scheme}://{rest}" = some u →
    ∃ v, P.parseUrl s!"{scheme}://{u.host}/" = some v ∧ v.host = u.host
  query {scheme rest : String} {u : Url} : scheme = "http" ∨ scheme = "https" →
    P.parseUrl s!"{scheme}://{rest}" = some u → ∀ query : String,
    ∃ v, P.parseUrl s!"{scheme}://{u.host}{u.pathname}?{query}" = some v ∧ v.host = u.host ∧
      v.pathname = u.pathname
  short {scheme : String} : scheme = "http" ∨ scheme = "https" →
    ∃ u, P.parseUrl s!"{scheme}://a/a" = some u ∧ u.host = "a" ∧ u.pathname = "/a"

variable {P : SigPlatform}

theorem targetPath_of_plain {path : String} (h : path.toList.any endsPath = false) :
    targetPath path = path := by
  have hall : path.toList.takeWhile (fun c => !endsPath c) = path.toList := by
    rw [List.takeWhile_eq_self_iff]
    intro c hc
    rw [Bool.not_eq_true', ← Bool.not_eq_true]
    exact List.any_eq_false.mp h c hc
  rw [targetPath, hall, String.ofList_toList]

/-- The host of a URL, sent as it is, names that host. -/
theorem authorityOf_host (hU : P.ReadsAddresses) {scheme rest : String} {u : Url}
    (hweb : scheme = "http" ∨ scheme = "https") (hu : P.parseUrl s!"{scheme}://{rest}" = some u)
    {line : Line} (hline : line.text = u.host) : authorityOf P scheme (some line) = some u.host := by
  obtain ⟨v, hv, hhost⟩ := hU.host_alone hweb hu
  rw [authorityOf, Option.bind_eq_bind, Option.bind_some, hline, hU.host_plain hweb hu,
    if_neg (by decide), hv, ← hhost]
  rfl

/-- A header with more than an authority in it names none. -/
theorem authorityOf_eq_none {scheme : String} {line : Line}
    (h : line.text.toList.any endsAuthority = true) : authorityOf P scheme (some line) = none := by
  rw [authorityOf, Option.bind_eq_bind, Option.bind_some, if_pos h]

end Gatekeeper.Agent
