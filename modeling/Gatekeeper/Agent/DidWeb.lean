import Mathlib.Data.List.DropRight
import Gatekeeper.Lib.JsValueTheorems
import Gatekeeper.Lib.Pattern
import Gatekeeper.Lib.Percent

/-!
# did:web names

`didWebFromOrigin` and `didWebDocumentUrl` of `card-signature.mjs`. The colon separates the
segments of a did:web name. The one before the port is escaped, those in the host and in the path
are not, and every segment is unescaped on the way back.
-/

namespace Gatekeeper.Agent

open Js (Error)
open Text (isLineEnd)

/-! ## The functions -/

/-- The host of an https URL: a name or an IPv4 address, or an IPv6 address in brackets. -/
def IsHost (cs : List Char) : Prop :=
  (cs ≠ [] ∧ '[' ∉ cs ∧ ':' ∉ cs) ∨ ∃ inner, cs = '[' :: inner ++ [']'] ∧ ']' ∉ inner

theorem line_of_all {cs : List Char} (h : cs.all (fun c => !isLineEnd c) = true) :
    ∀ c ∈ cs, isLineEnd c = false := by
  intro c hc
  have hline := List.all_eq_true.mp h c hc
  rwa [Bool.not_eq_true'] at hline

/-- An https URL as `new URL` has it, with the parts that are read. The port is empty when it is
the default one. -/
structure HttpsUrl where
  hostname : List Char
  port : List Char
  pathname : List Char
  isHost : IsHost hostname
  hostname_plain : '%' ∉ hostname
  hostname_line : ∀ c ∈ hostname, isLineEnd c = false
  port_digits : ∀ c ∈ port, c.isDigit = true
  pathname_line : ∀ c ∈ pathname, isLineEnd c = false

/-- `pathname.replace(/^\/|\/$/g, "")`. -/
def stripSlashes (cs : List Char) : List Char :=
  let rest := if cs.head? = some '/' then cs.tail else cs
  if rest.getLast? = some '/' then rest.dropLast else rest

variable (newUrl : String → Except Error HttpsUrl)

def didWebFromOrigin (origin : String) : Except Error String := do
  let u ← newUrl origin
  let host := if u.port ≠ [] then u.hostname ++ "%3A".toList ++ u.port else u.hostname
  let path := stripSlashes u.pathname
  return String.ofList ("did:web:".toList ++ (host ++
    if path ≠ [] then ':' :: [':'].intercalate (path.splitOn '/') else []))

/-- The group of `/^did:web:(.+)$/`. -/
def methodSpecificId (did : List Char) : Option (List Char) :=
  (Pattern.after "did:web:".toList did).filter
    fun rest => !rest.isEmpty && rest.all fun c => !isLineEnd c

/-- The message is the one of the `URIError`. -/
def decodeURIComponent (cs : List Char) : Except Error (List Char) :=
  match Percent.decode cs with
  | some ds => .ok ds
  | none => .error (.error "URI malformed")

/-- The URL made of the parts of a name. -/
def documentUrl (parts : List (List Char)) : List Char :=
  let host := parts.headD "undefined".toList
  if parts.tail ≠ [] then
    "https://".toList ++ (host ++ '/' :: (['/'].intercalate parts.tail ++ "/did.json".toList))
  else "https://".toList ++ (host ++ "/.well-known/did.json".toList)

def didWebDocumentUrl (did : String) : Except Error String :=
  match methodSpecificId did.toList with
  | none => .error (.error ("not a did:web: " ++ did))
  | some id => do
    let parts ← (id.splitOn ':').mapM decodeURIComponent
    return String.ofList (documentUrl parts)

/-! ## What is expected -/

/-- The place of the document: under the host, the port and the path of the URL. Only the slash that
sets the path off is taken at each end; a further one is part of the path that is fetched. -/
def documentLocation (u : HttpsUrl) : String :=
  let port := if u.port ≠ [] then ':' :: u.port else []
  let path := stripSlashes u.pathname
  String.ofList ("https://".toList ++ (u.hostname ++ port ++
    if path ≠ [] then '/' :: (path ++ "/did.json".toList) else "/.well-known/did.json".toList))

/-- The path without the slashes at its ends. -/
def trimmed (cs : List Char) : List Char := (cs.dropWhile (· = '/')).rdropWhile (· = '/')

/-- The same host, port and path. Here all the slashes at the ends are taken: two origins that
differ by them alone may have one name. -/
def SamePlace (u v : HttpsUrl) : Prop :=
  u.hostname = v.hostname ∧ u.port = v.port ∧ trimmed u.pathname = trimmed v.pathname

/-- No colon and no escape where the name does not escape it. -/
def Plain (u : HttpsUrl) : Prop :=
  ':' ∉ u.hostname ∧ ':' ∉ u.pathname ∧ '%' ∉ u.pathname

/-- Every slash read as a colon. -/
def colonised (cs : List Char) : List Char := cs.map fun c => if c = '/' then ':' else c

/-- Two places on one host that differ by a colon in the one path for a slash in the other. -/
def Confused (u v : HttpsUrl) : Prop :=
  u.hostname = v.hostname ∧ u.port = v.port ∧
    colonised (stripSlashes u.pathname) = colonised (stripSlashes v.pathname) ∧
    trimmed u.pathname ≠ trimmed v.pathname

/-! ## The name of a URL -/

/-- The host and the port, as the name has them. -/
def hostPart (u : HttpsUrl) : List Char :=
  u.hostname ++ if u.port ≠ [] then "%3A".toList ++ u.port else []

/-- The path, as the name has it. -/
def pathPart (u : HttpsUrl) : List Char :=
  if stripSlashes u.pathname ≠ [] then ':' :: colonised (stripSlashes u.pathname) else []

variable {newUrl}

theorem didWebFromOrigin_eq {o : String} {u : HttpsUrl} (h : newUrl o = .ok u) :
    didWebFromOrigin newUrl o =
      .ok (String.ofList ("did:web:".toList ++ (hostPart u ++ pathPart u))) := by
  have hhost : (if u.port ≠ [] then u.hostname ++ "%3A".toList ++ u.port else u.hostname) =
      hostPart u := by
    rw [hostPart]
    split_ifs
    · rw [List.append_assoc]
    · rw [List.append_nil]
  rw [← hhost, pathPart, colonised, ← Pattern.intercalate_splitOn_map]
  unfold didWebFromOrigin
  rw [h]
  rfl

/-- Only slashes are stripped. -/
theorem mem_stripSlashes (cs : List Char) {c : Char} (hc : c ≠ '/') :
    c ∈ stripSlashes cs ↔ c ∈ cs := by
  have hfirst : ∀ l : List Char, c ∈ (if l.head? = some '/' then l.tail else l) ↔ c ∈ l := by
    intro l
    split_ifs with h
    · obtain ⟨rest, rfl⟩ := List.head?_eq_some_iff.mp h
      rw [List.tail_cons, List.mem_cons, or_iff_right hc]
    · rfl
  have hlast : ∀ l : List Char,
      c ∈ (if l.getLast? = some '/' then l.dropLast else l) ↔ c ∈ l := by
    intro l
    split_ifs with h
    · obtain ⟨rest, rfl⟩ := List.getLast?_eq_some_iff.mp h
      rw [List.dropLast_concat, List.mem_append, List.mem_singleton, or_iff_left hc]
    · rfl
  rw [stripSlashes, hlast, hfirst]

theorem of_mem_colonised {cs : List Char} {c : Char} (h : c ∈ colonised cs) :
    c = ':' ∨ c ∈ cs := by
  obtain ⟨d, hd, rfl⟩ := List.mem_map.mp h
  split_ifs
  · exact .inl rfl
  · exact .inr hd

theorem count_colonised (cs : List Char) : (colonised cs).count '%' = cs.count '%' := by
  induction cs with
  | nil => rfl
  | cons c cs ih =>
    rw [colonised, List.map_cons, ← colonised, List.count_cons, List.count_cons, ih]
    by_cases hc : c = '/'
    · simp [hc]
    · rw [if_neg hc]

theorem size_colonised (cs : List Char) : Percent.size (colonised cs) = Percent.size cs := by
  induction cs with
  | nil => rfl
  | cons c cs ih =>
    rw [colonised, List.map_cons, ← colonised, Percent.size_cons, Percent.size_cons, ih]
    by_cases hc : c = '/'
    · rw [if_pos hc, hc]
      rfl
    · rw [if_neg hc]

/-- Reading every colon as a slash again gives the path, if it had no colon of its own. -/
theorem map_colonised (cs : List Char) :
    (colonised cs).map (fun c => if c = ':' then '/' else c) = cs ↔ ':' ∉ cs := by
  induction cs with
  | nil => simp [colonised]
  | cons c cs ih =>
    rw [colonised, List.map_cons, List.map_cons, ← colonised, List.cons.injEq, ih, List.mem_cons,
      not_or]
    refine and_congr_left fun _ => ?_
    by_cases hslash : c = '/'
    · simp [hslash]
    · by_cases hcolon : c = ':'
      · simp [hcolon]
      · simp [hslash, hcolon, Ne.symm hcolon]

/-! ## The host in a name -/

theorem port_ne {u : HttpsUrl} {c : Char} (h : c.isDigit = false) : c ∉ u.port := by
  intro hc
  rw [u.port_digits c hc] at h
  cases h

theorem hostname_ne_nil (u : HttpsUrl) : u.hostname ≠ [] := by
  rcases u.isHost with h | ⟨inner, h, _⟩
  · exact h.1
  · rw [h]
    exact List.cons_ne_nil _ _

theorem line_of_isDigit {c : Char} (h : c.isDigit = true) : isLineEnd c = false := by
  by_contra hline
  rw [Bool.not_eq_false, isLineEnd] at hline
  simp only [Bool.or_eq_true, beq_iff_eq] at hline
  rcases hline with ((rfl | rfl) | rfl) | rfl
  all_goals exact absurd h (by decide)

theorem hostPart_line (u : HttpsUrl) : ∀ c ∈ hostPart u, isLineEnd c = false := by
  have hescape : ∀ c ∈ "%3A".toList, isLineEnd c = false := line_of_all (by decide)
  intro c hc
  rw [hostPart, List.mem_append] at hc
  rcases hc with hc | hc
  · exact u.hostname_line c hc
  · split_ifs at hc
    · rcases List.mem_append.mp hc with hc | hc
      · exact hescape c hc
      · exact line_of_isDigit (u.port_digits c hc)
    · cases hc

theorem pathPart_line (u : HttpsUrl) : ∀ c ∈ pathPart u, isLineEnd c = false := by
  have hpath : ∀ c ∈ stripSlashes u.pathname, isLineEnd c = false := by
    intro c hc
    by_cases hslash : c = '/'
    · rw [hslash]
      decide
    · exact u.pathname_line c ((mem_stripSlashes _ hslash).mp hc)
  intro c hc
  rw [pathPart] at hc
  split_ifs at hc
  · rcases List.mem_cons.mp hc with rfl | hc
    · decide
    · rcases of_mem_colonised hc with rfl | hc
      · decide
      · exact hpath c hc
  · cases hc

/-- The name is one that `didWebDocumentUrl` takes. -/
theorem methodSpecificId_eq (u : HttpsUrl) :
    methodSpecificId ("did:web:".toList ++ (hostPart u ++ pathPart u)) =
      some (hostPart u ++ pathPart u) := by
  have hne : hostPart u ++ pathPart u ≠ [] := by
    intro h
    rw [hostPart, List.append_assoc] at h
    exact hostname_ne_nil u (List.append_eq_nil_iff.mp h).1
  have hline : ∀ c ∈ hostPart u ++ pathPart u, isLineEnd c = false :=
    List.forall_mem_append.mpr ⟨hostPart_line u, pathPart_line u⟩
  rw [methodSpecificId, Pattern.after_append, Option.filter_some_eq_some, Bool.and_eq_true,
    List.all_eq_true]
  refine ⟨?_, fun c hc => ?_⟩
  · rw [Bool.not_eq_true', List.isEmpty_eq_false_iff]
    exact hne
  · rw [hline c hc]
    rfl

/-! ## The document of a name -/

/-- The document URL is made of the decoded segments. -/
theorem didWebDocumentUrl_eq (u : HttpsUrl) :
    didWebDocumentUrl (String.ofList ("did:web:".toList ++ (hostPart u ++ pathPart u))) =
      (((hostPart u ++ pathPart u).splitOn ':').mapM decodeURIComponent).map
        fun parts => String.ofList (documentUrl parts) := by
  have hmap : ∀ x : Except Error (List (List Char)),
      (do let parts ← x; return String.ofList (documentUrl parts)) =
        x.map fun parts => String.ofList (documentUrl parts) := by
    intro x
    cases x <;> rfl
  rw [didWebDocumentUrl, String.toList_ofList, methodSpecificId_eq]
  exact hmap _

theorem decodeURIComponent_eq_ok {cs ds : List Char} :
    decodeURIComponent cs = .ok ds ↔ Percent.decode cs = some ds := by
  rw [decodeURIComponent]
  cases Percent.decode cs with
  | none => simp
  | some es => simp

/-- Segments without escapes are their own decodings. -/
theorem mapM_decode {ps : List (List Char)} (h : ∀ p ∈ ps, '%' ∉ p) :
    ps.mapM decodeURIComponent = .ok ps := by
  refine Js.mapM_eq_ok.mpr (List.forall₂_same.mpr fun p hp => ?_)
  exact decodeURIComponent_eq_ok.mpr (Percent.decode_of_not_mem (h p hp))

theorem ne_nil_of_mapM {cs : List Char} {ds : List (List Char)}
    (h : (cs.splitOn ':').mapM decodeURIComponent = .ok ds) : ds ≠ [] := by
  rintro rfl
  exact List.splitOn_ne_nil _ _ (List.forall₂_nil_right_iff.mp (Js.mapM_eq_ok.mp h))

theorem segments_plain {cs : List Char} (h : '%' ∉ cs) :
    ∀ p ∈ (colonised cs).splitOn ':', '%' ∉ p := by
  intro p hp hc
  rcases of_mem_colonised (Pattern.mem_of_mem_splitOn hp hc) with hc | hc
  · exact absurd hc (by decide)
  · exact h hc

/-- The segments joined again are shorter by two bytes for each escape. -/
theorem size_of_mapM {ps ds : List (List Char)} (h : ps.mapM decodeURIComponent = .ok ds) :
    Percent.size (['/'].intercalate ds) + 2 * ([':'].intercalate ps).count '%' =
      Percent.size ([':'].intercalate ps) := by
  induction Js.mapM_eq_ok.mp h with
  | nil => rfl
  | cons hd hes ih =>
    have hsize := Percent.size_of_decode (decodeURIComponent_eq_ok.mp hd)
    have hrest := ih (Js.mapM_eq_ok.mpr hes)
    cases hes with
    | nil =>
      rw [List.intercalate_singleton, List.intercalate_singleton]
      exact hsize
    | cons _ _ =>
      have hslash : '/'.utf8Size = 1 := by decide
      have hcolon : ':'.utf8Size = 1 := by decide
      have hne : ':' ≠ '%' := by decide
      rw [List.intercalate_cons_cons, List.intercalate_cons_cons]
      simp only [Percent.size_append, Percent.size_cons, Percent.size_nil, List.count_append,
        List.count_cons_of_ne hne, List.count_nil]
      omega

theorem colon_notMem_hostPart {u : HttpsUrl} (h : ':' ∉ u.hostname) : ':' ∉ hostPart u := by
  have hescape : ':' ∉ "%3A".toList := by decide
  intro hc
  rw [hostPart, List.mem_append] at hc
  rcases hc with hc | hc
  · exact h hc
  · split_ifs at hc
    · rcases List.mem_append.mp hc with hc | hc
      · exact hescape hc
      · exact port_ne (by decide) hc
    · cases hc

/-- The host and the port, as the document URL has them. -/
def authority (u : HttpsUrl) : List Char :=
  u.hostname ++ if u.port ≠ [] then ':' :: u.port else []

theorem decode_hostPart (u : HttpsUrl) : decodeURIComponent (hostPart u) = .ok (authority u) := by
  rw [decodeURIComponent_eq_ok, hostPart, authority]
  split_ifs with h
  · rw [← List.append_assoc]
    exact Percent.decode_colon u.hostname_plain (port_ne (by decide))
  · rw [List.append_nil]
    exact Percent.decode_of_not_mem u.hostname_plain

theorem documentLocation_eq (u : HttpsUrl) :
    documentLocation u = String.ofList ("https://".toList ++ (authority u ++
      if stripSlashes u.pathname ≠ [] then '/' :: (stripSlashes u.pathname ++ "/did.json".toList)
      else "/.well-known/did.json".toList)) := by
  rfl

/-- A colon in the host splits the host. -/
theorem location_ne_of_host {u : HttpsUrl} (h : ':' ∈ u.hostname) {parts : List (List Char)}
    (hparts : ((hostPart u ++ pathPart u).splitOn ':').mapM decodeURIComponent = .ok parts) :
    String.ofList (documentUrl parts) ≠ documentLocation u := by
  obtain ⟨pre, post, hhost, hpre⟩ := List.eq_append_cons_of_mem h
  have hplain : '%' ∉ pre := by
    intro hc
    exact u.hostname_plain (by rw [hhost]; exact List.mem_append_left _ hc)
  -- the first segment ends where the host has its first colon
  rw [hostPart, hhost, List.append_assoc, List.append_assoc, List.cons_append,
    List.splitOn_append_cons_self_of_not_mem hpre, List.mapM_cons, Js.bind_eq_ok] at hparts
  obtain ⟨host, hfirst, hparts⟩ := hparts
  obtain ⟨rest, hrest, hparts⟩ := Js.bind_eq_ok.mp hparts
  cases hparts
  rw [decodeURIComponent_eq_ok, Percent.decode_of_not_mem hplain, Option.some.injEq] at hfirst
  have hne := ne_nil_of_mapM hrest
  intro heq
  rw [documentLocation_eq, authority, hhost, documentUrl, List.tail_cons, if_pos hne,
    List.headD_cons, ← hfirst, String.ofList_inj, List.append_cancel_left_eq, List.append_assoc,
    List.append_assoc, List.append_cancel_left_eq, List.cons_append, List.cons.injEq] at heq
  exact absurd heq.1 (by decide)

/-- Without a path there is nothing to split. -/
theorem location_of_no_path {u : HttpsUrl} (h : ':' ∉ u.hostname)
    (hpath : stripSlashes u.pathname = []) :
    didWebDocumentUrl (String.ofList ("did:web:".toList ++ (hostPart u ++ pathPart u))) =
      .ok (documentLocation u) := by
  have hpart : pathPart u = [] := by
    rw [pathPart, hpath]
    rfl
  rw [didWebDocumentUrl_eq, hpart, List.append_nil,
    List.splitOn_eq_singleton (colon_notMem_hostPart h), documentLocation_eq, hpath,
    List.mapM_cons, decode_hostPart]
  rfl

/-- With a path the location is met exactly when the decoded segments spell the path. -/
theorem documentUrl_eq_location {u : HttpsUrl} (hpath : stripSlashes u.pathname ≠ [])
    {rest : List (List Char)} (hne : rest ≠ []) :
    String.ofList (documentUrl (authority u :: rest)) = documentLocation u ↔
      ['/'].intercalate rest = stripSlashes u.pathname := by
  rw [documentLocation_eq, if_pos hpath, documentUrl, List.tail_cons, if_pos hne,
    List.headD_cons, String.ofList_inj, List.append_cancel_left_eq,
    List.append_cancel_left_eq, List.cons.injEq, List.append_cancel_right_eq]
  exact and_iff_right rfl

/-- With a path the document is under the host and the decoded segments. -/
theorem location_of_path {u : HttpsUrl} (h : ':' ∉ u.hostname)
    (hpath : stripSlashes u.pathname ≠ []) :
    didWebDocumentUrl (String.ofList ("did:web:".toList ++ (hostPart u ++ pathPart u))) =
        .ok (documentLocation u) ↔
      ':' ∉ stripSlashes u.pathname ∧ '%' ∉ stripSlashes u.pathname := by
  have hsplit : (hostPart u ++ pathPart u).splitOn ':' =
      hostPart u :: (colonised (stripSlashes u.pathname)).splitOn ':' := by
    rw [pathPart, if_pos hpath,
      List.splitOn_append_cons_self_of_not_mem (colon_notMem_hostPart h)]
  have hjoin : [':'].intercalate ((colonised (stripSlashes u.pathname)).splitOn ':') =
      colonised (stripSlashes u.pathname) := List.intercalate_splitOn _
  rw [didWebDocumentUrl_eq, hsplit, List.mapM_cons, decode_hostPart, Js.map_eq_ok]
  constructor
  · intro hdoc
    obtain ⟨parts, hparts, hurl⟩ := hdoc
    obtain ⟨host, hhost, hparts⟩ := Js.bind_eq_ok.mp hparts
    obtain ⟨rest, hrest, hparts⟩ := Js.bind_eq_ok.mp hparts
    cases hhost
    cases hparts
    have hspell := (documentUrl_eq_location hpath (ne_nil_of_mapM hrest)).mp hurl
    -- by their sizes there is no escape, and then the segments are what they were
    have hsize := size_of_mapM hrest
    rw [hjoin, hspell, count_colonised, size_colonised] at hsize
    have hplain : '%' ∉ stripSlashes u.pathname := by
      rw [← List.count_eq_zero]
      omega
    rw [mapM_decode (segments_plain hplain), Except.ok.injEq] at hrest
    rw [← hrest, Pattern.intercalate_splitOn_map, map_colonised] at hspell
    exact ⟨hspell, hplain⟩
  · intro hplain
    refine ⟨authority u :: (colonised (stripSlashes u.pathname)).splitOn ':', ?_, ?_⟩
    · rw [mapM_decode (segments_plain hplain.2)]
      rfl
    · rw [documentUrl_eq_location hpath (List.splitOn_ne_nil _ _),
        Pattern.intercalate_splitOn_map, map_colonised]
      exact hplain.1

theorem didWebDocumentUrl_iff (u : HttpsUrl) :
    didWebDocumentUrl (String.ofList ("did:web:".toList ++ (hostPart u ++ pathPart u))) =
        .ok (documentLocation u) ↔ Plain u := by
  have hcolon := mem_stripSlashes u.pathname (c := ':') (by decide)
  have hescape := mem_stripSlashes u.pathname (c := '%') (by decide)
  rw [Plain, ← hcolon, ← hescape]
  by_cases hhost : ':' ∈ u.hostname
  · constructor
    · intro hdoc
      rw [didWebDocumentUrl_eq, Js.map_eq_ok] at hdoc
      obtain ⟨parts, hparts, hurl⟩ := hdoc
      exact absurd hurl (location_ne_of_host hhost hparts)
    · intro hplain
      exact absurd hhost hplain.1
  · rw [and_iff_right hhost]
    by_cases hpath : stripSlashes u.pathname = []
    · rw [location_of_no_path hhost hpath, hpath]
      simp
    · exact location_of_path hhost hpath

/-! ## Names of different places -/

theorem hostname_ne_bracket {u : HttpsUrl} {inner r : List Char} (h : '[' ∉ u.hostname) :
    u.hostname ++ r ≠ '[' :: inner := by
  intro heq
  cases hhost : u.hostname with
  | nil => exact hostname_ne_nil u hhost
  | cons c cs =>
    rw [hhost, List.cons_append, List.cons.injEq] at heq
    rw [hhost, heq.1] at h
    exact h List.mem_cons_self

/-- The host ends where the port or the path begins. -/
theorem hostname_of_name {u v : HttpsUrl} {r s : List Char}
    (hr : ∀ c ∈ r.head?, c = ':' ∨ c = '%') (hs : ∀ c ∈ s.head?, c = ':' ∨ c = '%')
    (h : u.hostname ++ r = v.hostname ++ s) : u.hostname = v.hostname ∧ r = s := by
  rcases u.isHost with ⟨_, hu, hcu⟩ | ⟨a, hu, ha⟩ <;>
    rcases v.isHost with ⟨_, hv, hcv⟩ | ⟨b, hv, hb⟩
  · -- two names end at the first colon or escape
    have hplain : ∀ {w : HttpsUrl}, ':' ∉ w.hostname →
        ∀ c ∈ w.hostname, decide (c ≠ ':' ∧ c ≠ '%') = true := by
      intro w hw c hc
      rw [decide_eq_true_iff]
      constructor
      · rintro rfl
        exact hw hc
      · rintro rfl
        exact w.hostname_plain hc
    have hstop : ∀ {t : List Char}, (∀ c ∈ t.head?, c = ':' ∨ c = '%') →
        ∀ c ∈ t.head?, decide (c ≠ ':' ∧ c ≠ '%') = false := by
      intro t ht c hc
      rcases ht c hc with rfl | rfl <;> decide
    exact Pattern.append_inj_of_stop (hplain hcu) (hplain hcv) (hstop hr) (hstop hs) h
  · rw [hv, List.cons_append, List.cons_append] at h
    exact absurd h (hostname_ne_bracket hu)
  · rw [hu, List.cons_append, List.cons_append] at h
    exact absurd h.symm (hostname_ne_bracket hv)
  · -- two addresses end at their closing bracket
    have hopen : ∀ {inner : List Char}, ']' ∉ inner → ∀ c ∈ inner, decide (c ≠ ']') = true := by
      intro inner hin c hc
      rw [decide_eq_true_iff]
      rintro rfl
      exact hin hc
    have hclose : ∀ {t : List Char}, ∀ c ∈ (']' :: t).head?, decide (c ≠ ']') = false := by
      intro t c hc
      rw [List.head?_cons, Option.mem_some] at hc
      rw [← hc]
      decide
    rw [hu, hv] at h
    simp only [List.cons_append, List.append_assoc, List.cons.injEq, true_and,
      List.nil_append] at h
    obtain ⟨hab, hrs⟩ := Pattern.append_inj_of_stop (hopen ha) (hopen hb) hclose hclose h
    rw [hu, hv, hab]
    exact ⟨rfl, (List.cons.injEq _ _ _ _ ▸ hrs).2⟩

theorem head_pathPart (u : HttpsUrl) : ∀ c ∈ (pathPart u).head?, c = ':' := by
  intro c hc
  rw [pathPart] at hc
  split_ifs at hc
  · exact (Option.some.inj hc).symm
  · cases hc

/-- The port ends where the path begins. -/
theorem port_of_name {u v : HttpsUrl}
    (h : (if u.port ≠ [] then "%3A".toList ++ u.port else []) ++ pathPart u =
      (if v.port ≠ [] then "%3A".toList ++ v.port else []) ++ pathPart v) :
    u.port = v.port ∧ pathPart u = pathPart v := by
  have hescape : ∀ {w : HttpsUrl} {t : List Char}, "%3A".toList ++ t ≠ pathPart w := by
    intro w t heq
    have hhead := head_pathPart w '%' (by rw [← heq]; rfl)
    exact absurd hhead (by decide)
  have hstop : ∀ w : HttpsUrl, ∀ c ∈ (pathPart w).head?, c.isDigit = false := by
    intro w c hc
    rw [head_pathPart w c hc]
    decide
  by_cases hu : u.port = [] <;> by_cases hv : v.port = []
  · rw [if_neg (not_not.mpr hu), if_neg (not_not.mpr hv)] at h
    exact ⟨hu.trans hv.symm, h⟩
  · rw [if_neg (not_not.mpr hu), if_pos hv, List.append_assoc] at h
    exact absurd h.symm hescape
  · rw [if_pos hu, if_neg (not_not.mpr hv), List.append_assoc] at h
    exact absurd h hescape
  · rw [if_pos hu, if_pos hv, List.append_assoc, List.append_assoc,
      List.append_cancel_left_eq] at h
    exact Pattern.append_inj_of_stop u.port_digits v.port_digits (hstop u) (hstop v) h

theorem pathPart_inj {u v : HttpsUrl} :
    pathPart u = pathPart v ↔
      colonised (stripSlashes u.pathname) = colonised (stripSlashes v.pathname) := by
  have hnil : ∀ cs : List Char, colonised cs = [] ↔ cs = [] := fun _ => List.map_eq_nil_iff
  rw [pathPart, pathPart]
  by_cases hu : stripSlashes u.pathname = [] <;> by_cases hv : stripSlashes v.pathname = []
  · rw [hu, hv]
    simp
  · rw [hu, if_neg (not_not.mpr rfl), if_pos hv]
    exact ⟨nofun, fun h => absurd ((hnil _).mp h.symm) hv⟩
  · rw [hv, if_neg (not_not.mpr rfl), if_pos hu]
    exact ⟨nofun, fun h => absurd ((hnil _).mp h) hu⟩
  · rw [if_pos hu, if_pos hv, List.cons.injEq]
    exact and_iff_right rfl

/-- What a name tells: the host, the port, and the path up to its separators. -/
theorem name_inj {u v : HttpsUrl} :
    hostPart u ++ pathPart u = hostPart v ++ pathPart v ↔
      u.hostname = v.hostname ∧ u.port = v.port ∧
        colonised (stripSlashes u.pathname) = colonised (stripSlashes v.pathname) := by
  have hstop : ∀ w : HttpsUrl,
      ∀ c ∈ ((if w.port ≠ [] then "%3A".toList ++ w.port else []) ++ pathPart w).head?,
        c = ':' ∨ c = '%' := by
    intro w c hc
    split_ifs at hc
    · exact .inr (Option.some.inj hc).symm
    · exact .inl (head_pathPart w c hc)
  rw [← pathPart_inj]
  constructor
  · intro h
    rw [hostPart, hostPart, List.append_assoc, List.append_assoc] at h
    obtain ⟨hhost, hrest⟩ := hostname_of_name (hstop u) (hstop v) h
    exact ⟨hhost, port_of_name hrest⟩
  · intro h
    rw [hostPart, hostPart, h.1, h.2.1, h.2.2]

/-! ## The claim about names -/

/-- The document of a name is the one of its URL exactly when neither the host nor the path has a
colon and the path no escape; and different places have different names exactly when their paths
do not differ by colons for slashes alone. -/
theorem didWeb_roundtrip_iff {o₁ o₂ : String} {u v : HttpsUrl} (hu : newUrl o₁ = .ok u)
    (hv : newUrl o₂ = .ok v) :
    ((didWebFromOrigin newUrl o₁ >>= didWebDocumentUrl) = .ok (documentLocation u) ↔ Plain u) ∧
      ((¬ SamePlace u v → didWebFromOrigin newUrl o₁ ≠ didWebFromOrigin newUrl o₂) ↔
        ¬ Confused u v) := by
  rw [didWebFromOrigin_eq hu, didWebFromOrigin_eq hv]
  refine ⟨didWebDocumentUrl_iff u, ?_⟩
  rw [Ne, Except.ok.injEq, String.ofList_inj, List.append_cancel_left_eq, name_inj, SamePlace,
    Confused]
  tauto

/-- A URL of the host `agent.example`. -/
def exampleUrl (port pathname : List Char) (hport : ∀ c ∈ port, c.isDigit = true)
    (hpath : ∀ c ∈ pathname, isLineEnd c = false) : HttpsUrl where
  hostname := "agent.example".toList
  port := port
  pathname := pathname
  isHost := .inl (by decide)
  hostname_plain := by decide
  hostname_line := line_of_all (by decide)
  port_digits := hport
  pathname_line := hpath

def portUrl : HttpsUrl :=
  exampleUrl "8443".toList "/gate/".toList (List.all_eq_true.mp (by decide))
    (line_of_all (by decide))

def colonUrl : HttpsUrl := exampleUrl [] "/a:b".toList nofun (line_of_all (by decide))

def slashUrl : HttpsUrl := exampleUrl [] "/a/b".toList nofun (line_of_all (by decide))

def loopbackUrl : HttpsUrl where
  hostname := "[::1]".toList
  port := []
  pathname := ['/']
  isHost := .inr ⟨"::1".toList, by decide⟩
  hostname_plain := by decide
  hostname_line := line_of_all (by decide)
  port_digits := nofun
  pathname_line := line_of_all (by decide)

/-- These URLs, parsed. -/
def parsedUrls (origin : String) : Except Error HttpsUrl :=
  if origin = "https://agent.example:8443/gate/" then .ok portUrl
  else if origin = "https://agent.example/a:b" then .ok colonUrl
  else if origin = "https://agent.example/a/b" then .ok slashUrl
  else if origin = "https://[::1]/" then .ok loopbackUrl
  else .error .typeError

theorem parsedUrls_slash : parsedUrls "https://agent.example/a/b" = .ok slashUrl := by
  rw [parsedUrls, if_neg (by decide), if_neg (by decide), if_pos rfl]

theorem didWeb_roundtrip_sample :
    (didWebFromOrigin parsedUrls "https://agent.example:8443/gate/" >>= didWebDocumentUrl) =
        .ok "https://agent.example:8443/gate/did.json" ∧
      didWebFromOrigin parsedUrls "https://agent.example:8443/gate/" ≠
        didWebFromOrigin parsedUrls "https://agent.example/a/b" := by
  have hgate : parsedUrls "https://agent.example:8443/gate/" = .ok portUrl := by
    rw [parsedUrls, if_pos rfl]
  have hlocation : documentLocation portUrl = "https://agent.example:8443/gate/did.json" := by
    decide
  obtain ⟨hdoc, hname⟩ := didWeb_roundtrip_iff hgate parsedUrls_slash
  rw [hlocation] at hdoc
  refine ⟨hdoc.mpr ⟨by decide, by decide, by decide⟩, hname.mpr ?_ ?_⟩
  · intro h
    exact absurd h.2.1 (by decide)
  · intro h
    exact absurd h.2.1 (by decide)

/-- An IPv6 host is taken apart at its colons, and two paths share a name. -/
theorem didWeb_roundtrip_fails :
    (didWebFromOrigin parsedUrls "https://[::1]/" >>= didWebDocumentUrl) =
        .ok "https://[//1]/did.json" ∧
      documentLocation loopbackUrl = "https://[::1]/.well-known/did.json" ∧
      didWebFromOrigin parsedUrls "https://agent.example/a:b" =
        didWebFromOrigin parsedUrls "https://agent.example/a/b" ∧
      ¬ SamePlace colonUrl slashUrl := by
  have hloopback : parsedUrls "https://[::1]/" = .ok loopbackUrl := by
    rw [parsedUrls, if_neg (by decide), if_neg (by decide), if_neg (by decide), if_pos rfl]
  have hcolon : parsedUrls "https://agent.example/a:b" = .ok colonUrl := by
    rw [parsedUrls, if_neg (by decide), if_pos rfl]
  have hname : hostPart loopbackUrl ++ pathPart loopbackUrl = "[::1]".toList := by decide
  have hparts : ("[::1]".toList.splitOn ':').mapM decodeURIComponent =
      .ok ["[".toList, [], "1]".toList] := mapM_decode (by decide)
  have hurl : documentUrl ["[".toList, [], "1]".toList] = "https://[//1]/did.json".toList := by
    decide
  have hdoc : didWebDocumentUrl (String.ofList ("did:web:".toList ++
      (hostPart loopbackUrl ++ pathPart loopbackUrl))) = .ok "https://[//1]/did.json" := by
    rw [didWebDocumentUrl_eq, hname, hparts, Except.map, hurl, String.ofList_toList]
  have hbind : ∀ did, (Except.ok did >>= didWebDocumentUrl) = didWebDocumentUrl did :=
    fun _ => rfl
  have hshared : hostPart colonUrl ++ pathPart colonUrl = hostPart slashUrl ++ pathPart slashUrl :=
    by decide
  refine ⟨?_, by decide, ?_, ?_⟩
  · rw [didWebFromOrigin_eq hloopback, hbind, hdoc]
  · rw [didWebFromOrigin_eq hcolon, didWebFromOrigin_eq parsedUrls_slash, hshared]
  · intro h
    exact absurd h.2.2 (by decide)

end Gatekeeper.Agent
