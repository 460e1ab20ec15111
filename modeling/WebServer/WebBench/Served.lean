import WebServer.Event.Served
import WebServer.Http.RequestLine
import WebServer.WebBench.BuildRequest

/-!
# WebBench/Served — the server's answer to the benchmark

The requests of `BuildRequest` are read by the server as they were meant, as long as they are `GET`s
or `HEAD`s, of a version that it knows, and their path names no method that the server looks for
earlier.  So on a connection that brings nothing else it answers each of them with the document of
the URL (`served_of_run`).
-/

namespace WebServer.WebBench

open Http Event

/-! ## What a URL asks for -/

/-- **The path**, behind the slash that ends host and port. -/
def pathPart (url : Bytes) : Bytes :=
  match findStr (text "://") url with
  | none => []
  | some p => ((url.drop (p + 3)).dropWhile (· ≠ Chr.slash)).drop 1

/-- The document that the server looks for. -/
def document (url : Bytes) : Bytes :=
  if pathPart url = [] then text "index.html" else (pathPart url).takeWhile (· ≠ Chr.question)

/-- The number of a version, for `BuildRequest`. -/
def versionNumber : HttpVersion → ℤ
  | .http10 => 1
  | .http11 => 2

/-- **A request that the server understands.** -/
structure Understood (st : Settings) (url : Bytes) (m : RequestMethod) (v : HttpVersion) :
    Prop where
  proxyHost : st.proxyHost = none
  method : methodName st.requestMethod = methodWord m
  version : version st = versionNumber v
  url_ok : ∀ c ∈ url, c ≠ Chr.space ∧ c ≠ Chr.cr ∧ c ≠ Chr.lf
  hostPart_ne : hostPart url ≠ []
  clear : ∀ w ∈ RequestLine.earlier m, ¬ methodWord w <:+: pathPart url
  document_ne : document url ≠ text "echo"

/-! ## What is built -/

section Build

variable {st : Settings} {url : Bytes} {b : Built} {v : HttpVersion}

/-- **The request, part by part.** -/
theorem buildRequest_eq (h : buildRequest st url = some b) (hproxy : st.proxyHost = none) :
    Chr.slash ∉ authority url ∧
      b = finish st (target (authority url ++ Chr.slash :: pathPart url) (authority url).length
        (start st)) := by
  obtain ⟨p, r, hp, hrest, -, hslash, rfl⟩ := buildRequest_some h
  have hpath : pathPart url = r := by
    rw [pathPart, hp]
    dsimp only
    rw [hrest, dropWhile_append_cons hslash, List.drop_one, List.tail_cons]
  rw [hpath, if_pos hproxy]
  exact ⟨hslash, rfl⟩

/-- Texts, one behind the other. -/
def strcats (b : Built) (texts : List Bytes) : Built := texts.foldl Built.strcat b

theorem request_strcats : ∀ (texts : List Bytes) (b : Built),
    (strcats b texts).request = b.request ++ texts.flatten
  | [], _ => (List.append_nil _).symm
  | t :: texts, b => (request_strcats texts (b.strcat t)).trans (List.append_assoc ..)

theorem copies_strcats : ∀ (texts : List Bytes) (b : Built), b.copies ⊆ (strcats b texts).copies
  | [], _ => List.Subset.refl _
  | t :: texts, b =>
    List.Subset.trans (List.subset_append_left ..) (copies_strcats texts (b.strcat t))

/-- The connection header. -/
def connectionTexts (st : Settings) : HttpVersion → List Bytes
  | .http10 => []
  | .http11 =>
    [text "Connection: ", if st.isKeepAlive then text "keep-alive\r\n" else text "close\r\n"]

/-- What follows the target. -/
def finishTexts (st : Settings) (host : Bytes) (v : HttpVersion) : List Bytes :=
  [text " HTTP/" ++ versionText v, crlf, text "User-Agent: WebBench v1.5\r\n", text "Host: ", host,
    crlf] ++ connectionTexts st v ++ [crlf]

@[simp] theorem httpVersion_strcat (b : Built) (s : Bytes) :
    (b.strcat s).httpVersion = b.httpVersion := rfl

@[simp] theorem host_strcat (b : Built) (s : Bytes) : (b.strcat s).host = b.host := rfl

theorem versionLine_eq (hv : b.httpVersion = versionNumber v) :
    versionLine b = (b.strcat (text " HTTP/" ++ versionText v)).strcat crlf := by
  rw [versionLine, hv]
  cases v <;> rfl

/-- **What is put behind the target** of a request that a server gets. -/
theorem finish_eq (hproxy : st.proxyHost = none) (hv : b.httpVersion = versionNumber v) :
    finish st b = strcats b (finishTexts st b.host v) := by
  rw [finish, versionLine_eq hv]
  cases v with
  | http10 =>
    simp [userAgent, hostLine, pragma, connection, blankLine, hproxy, hv, versionNumber, strcats,
      finishTexts, connectionTexts]
  | http11 =>
    simp [userAgent, hostLine, pragma, connection, blankLine, hproxy, hv, versionNumber, strcats,
      finishTexts, connectionTexts]

/-- A target leaves the version. -/
theorem httpVersion_target (rest : Bytes) (slash : ℕ) (b : Built) :
    (target rest slash b).httpVersion = b.httpVersion := by
  rw [target]
  split
  · split <;> rfl
  · rfl

end Build

/-! ## The request that a server reads -/

section Read

variable {st : Settings} {url : Bytes} {b : Built} {m : RequestMethod} {v : HttpVersion}

theorem authority_subset (url : Bytes) : authority url ⊆ url := by
  rw [authority]
  split
  · exact List.nil_subset _
  · exact List.Subset.trans (List.takeWhile_sublist _).subset (List.drop_subset _ _)

theorem hostPart_subset (url : Bytes) : hostPart url ⊆ url :=
  List.Subset.trans (List.takeWhile_sublist _).subset (authority_subset url)

theorem pathPart_subset (url : Bytes) : pathPart url ⊆ url := by
  rw [pathPart]
  split
  · exact List.nil_subset _
  · exact List.Subset.trans (List.drop_subset _ _)
      (List.Subset.trans (List.dropWhile_sublist _).subset (List.drop_subset _ _))

/-- The header of the program, as a field. -/
def agentField : Field := (text "User-Agent", text "WebBench v1.5")

theorem plain_agentField : agentField.Plain :=
  ⟨by decide +kernel, by decide +kernel, by decide +kernel⟩

/-- The header of the connection. -/
def connectionField (isKeepAlive : Bool) : Field :=
  (text "Connection", if isKeepAlive then text "keep-alive" else text "close")

theorem plain_connectionField (isKeepAlive : Bool) : (connectionField isKeepAlive).Plain := by
  cases isKeepAlive <;> exact ⟨by decide +kernel, by decide +kernel, by decide +kernel⟩

/-- The header of the connection, where there is one. -/
def connectionFields (st : Settings) : HttpVersion → List Field
  | .http10 => []
  | .http11 => [connectionField st.isKeepAlive]

namespace Understood

theorem method_ne (u : Understood st url m v) : m ≠ .post := by
  rintro rfl
  have h := u.method
  unfold methodName at h
  split at h <;> exact absurd h (by decide)

theorem host_ne : text "Host" ≠ [] := by decide

theorem host_ok : ∀ c ∈ text "Host", c ≠ Chr.colon ∧ c ≠ Chr.cr ∧ c ≠ Chr.lf := by decide +kernel

/-- The fields of the request, with that of the host. -/
def fields (st : Settings) (url : Bytes) (v : HttpVersion) : List Field :=
  agentField :: (text "Host", hostPart url) :: connectionFields st v

theorem plain_fields (u : Understood st url m v) : ∀ f ∈ fields st url v, f.Plain := by
  refine List.forall_mem_cons.mpr ⟨plain_agentField, List.forall_mem_cons.mpr ⟨⟨host_ne, host_ok,
    fun c hc => (u.url_ok c (hostPart_subset url hc)).2⟩, ?_⟩⟩
  cases v with
  | http10 => exact List.forall_mem_nil _
  | http11 => exact List.forall_mem_singleton.mpr (plain_connectionField st.isKeepAlive)

/-- No value is empty, so that each is read as it is. -/
theorem value_ne (u : Understood st url m v) : ∀ f ∈ fields st url v, f.2 ≠ [] := by
  have hagent : text "WebBench v1.5" ≠ [] := by decide
  refine List.forall_mem_cons.mpr ⟨hagent, List.forall_mem_cons.mpr ⟨u.hostPart_ne, ?_⟩⟩
  cases v with
  | http10 => exact List.forall_mem_nil _
  | http11 =>
    refine List.forall_mem_singleton.mpr ?_
    change (if st.isKeepAlive then text "keep-alive" else text "close") ≠ []
    split <;> decide

/-- **The request, as it is meant.** -/
def request (u : Understood st url m v) : Request where
  method := m
  path := pathPart url
  version := v
  headers := fields st url v
  method_ne := u.method_ne
  headers_ne := List.cons_ne_nil _ _
  plain := u.plain_fields
  path_ok c hc := u.url_ok c (pathPart_subset url hc)

theorem fieldLines_connectionFields (st : Settings) (v : HttpVersion) :
    fieldLines (connectionFields st v) = (connectionTexts st v).flatten := by
  cases v with
  | http10 => rfl
  | http11 => cases hk : st.isKeepAlive <;> simp [connectionFields, connectionTexts, hk] <;> rfl

/-- **What is built**, text by text. -/
theorem exists_target (u : Understood st url m v) (h : buildRequest st url = some b) :
    ∃ b' : Built, b = strcats (b'.strcat (Chr.slash :: pathPart url))
        (finishTexts st (hostPart url) v) ∧
      b'.request = (start st).request ∧ (b'.Fits → (hostPart url).length < maxHostNameLen) := by
  obtain ⟨hslash, rfl⟩ := buildRequest_eq h u.proxyHost
  have hversion := httpVersion_target (authority url ++ Chr.slash :: pathPart url)
    (authority url).length (start st)
  obtain ⟨b', htarget, hhost, hrequest, hfits⟩ := target_eq hslash (pathPart url) (start st)
  rw [htarget] at hversion ⊢
  refine ⟨b', ?_, hrequest, fun h => (hfits.mp h).2.1⟩
  rw [finish_eq u.proxyHost (hversion.trans u.version), host_strcat, hhost]
  rfl

/-- **What is built is what is meant.** -/
theorem request_eq (u : Understood st url m v) (h : buildRequest st url = some b) :
    b.request = u.request.bytes := by
  obtain ⟨b', rfl, hrequest, -⟩ := u.exists_target h
  have hstart : (start st).request = methodWord m ++ [Chr.space] := by
    rw [← u.method]
    rfl
  have hhttp : text " HTTP/" = Chr.space :: text "HTTP" ++ [Chr.slash] := rfl
  have hagent : text "User-Agent: WebBench v1.5\r\n" = agentField.line := rfl
  have hname : text "Host: " = text "Host" ++ [Chr.colon, Chr.space] := rfl
  have hfields : fieldLines (fields st url v) = agentField.line ++
      ((text "Host" ++ Chr.colon :: Chr.space :: (hostPart url ++ crlf)) ++
        (connectionTexts st v).flatten) := by
    rw [fields, fieldLines_cons, fieldLines_cons, fieldLines_connectionFields]
    rfl
  rw [request_strcats]
  change (b'.request ++ Chr.slash :: pathPart url) ++ _ = _
  rw [hrequest, hstart, finishTexts, hhttp, hagent, hname]
  simp [Request.bytes, Request.line, Request.fieldBytes, headerBlock, request, hfields]

/-- A host that has been copied has fitted. -/
theorem length_hostPart (u : Understood st url m v) (h : buildRequest st url = some b)
    (hfits : b.Fits) : (hostPart url).length < maxHostNameLen := by
  obtain ⟨b', rfl, -, hhost⟩ := u.exists_target h
  have htarget : (b'.strcat (Chr.slash :: pathPart url)).Fits := fun c hc =>
    hfits c (copies_strcats _ _ hc)
  exact hhost ((fits_strcat b' _).mp htarget).1

/-- **The request line**, cut at its query. -/
def requestLine (u : Understood st url m v) : RequestLine where
  method := m
  path := (pathPart url).takeWhile (· ≠ Chr.question)
  query := ((pathPart url).dropWhile (· ≠ Chr.question)).tail?
  version := v
  path_ok c hc := by
    have hmem := (List.takeWhile_sublist _).subset hc
    obtain ⟨hspace, hcr, -⟩ := u.url_ok c (pathPart_subset url hmem)
    have hquestion := List.mem_takeWhile_imp hc
    exact ⟨hspace, hcr, of_decide_eq_true hquestion⟩
  query_ok q hq c hc := by
    have hmem : c ∈ (pathPart url).dropWhile (· ≠ Chr.question) := by
      generalize (pathPart url).dropWhile (· ≠ Chr.question) = x at hq
      cases x with
      | nil => cases hq
      | cons d q' => exact List.mem_cons_of_mem d (Option.some.inj hq ▸ hc)
    obtain ⟨hspace, hcr, -⟩ :=
      u.url_ok c (pathPart_subset url ((List.dropWhile_sublist _).subset hmem))
    exact ⟨hspace, hcr⟩

theorem target_requestLine (u : Understood st url m v) : u.requestLine.target = pathPart url := by
  change (pathPart url).takeWhile (· ≠ Chr.question) ++
    (match ((pathPart url).dropWhile (· ≠ Chr.question)).tail? with
      | none => []
      | some q => Chr.question :: q) = _
  by_cases hq : Chr.question ∈ pathPart url
  · obtain ⟨x, y, hpath, hx⟩ := List.eq_append_cons_of_mem hq
    rw [hpath, takeWhile_append_cons hx, dropWhile_append_cons hx]
    rfl
  · have htake : (pathPart url).takeWhile (· ≠ Chr.question) = pathPart url :=
      List.takeWhile_eq_self_iff.mpr fun _ hd => decide_eq_true fun e => hq (e ▸ hd)
    have hdrop : (pathPart url).dropWhile (· ≠ Chr.question) = [] :=
      List.dropWhile_eq_nil_iff.mpr fun _ hd => decide_eq_true fun e => hq (e ▸ hd)
    rw [htake, hdrop]
    exact List.append_nil _

theorem not_shadowed (u : Understood st url m v) : ¬ u.requestLine.Shadowed := by
  rintro ⟨w, hw, hin⟩
  rw [target_requestLine] at hin
  exact u.clear w hw hin

/-- The words that the server looks for earlier are not found. -/
theorem readMethod_request (u : Understood st url m v) : u.request.readMethod = m := by
  cases m with
  | get => rfl
  | post => exact absurd rfl u.method_ne
  | head =>
    have hget := findStr_eq_none_iff.mpr (u.clear .get (by decide))
    have hpost := findStr_eq_none_iff.mpr (u.clear .post (by decide))
    simp only [methodWord] at hget hpost
    change ((methodInPath (pathPart url)).map Prod.fst).getD .head = _
    rw [methodInPath, hget, hpost]
    rfl

theorem encode_requestLine (u : Understood st url m v) : u.requestLine.encode = u.request.line := by
  rw [RequestLine.encode, target_requestLine]
  rfl

/-- **The server reads the request as it is meant.** -/
theorem asks (u : Understood st url m v) (hshort : (hostPart url).length ≤ 256) :
    Asks u.request (document url) where
  line c := by
    rw [← encode_requestLine, RequestLine.readRequestLine_encode u.not_shadowed,
      target_requestLine, readMethod_request]
    rfl
  method_ne := by
    rw [readMethod_request]
    exact u.method_ne
  fileName_ne := u.document_ne
  short := by
    change Short (fields st url v)
    rw [Short, swallowed_eq_self u.value_ne]
    have hagent : (text "WebBench v1.5").length ≤ 256 := by decide
    refine List.forall_mem_cons.mpr ⟨hagent, List.forall_mem_cons.mpr ⟨hshort, ?_⟩⟩
    cases v with
    | http10 => exact List.forall_mem_nil _
    | http11 =>
      refine List.forall_mem_singleton.mpr ?_
      change (if st.isKeepAlive then text "keep-alive" else text "close").length ≤ 256
      split <;> decide
  ends := by
    change Ends (fields st url v)
    rw [Ends, swallowed_eq_self u.value_ne]
    exact u.value_ne

/-- What is recorded is the fields themselves. -/
theorem headerMap_eq (u : Understood st url m v) :
    u.request.headerMap = lastWins (fields st url v) := by
  have hends : Ends (fields st url v) := by
    rw [Ends, swallowed_eq_self u.value_ne]
    exact u.value_ne
  exact congrArg lastWins ((scannedLines_of_ends hends).trans (swallowed_eq_self u.value_ne))

/-- **The fields that the server has read.** -/
theorem headerMap_request (u : Understood st url m v) :
    u.request.headerMap (text "Host") = some (hostPart url) ∧
      wantsKeepAlive u.request.headerMap = (st.isKeepAlive && decide (v = .http11)) := by
  have hne : text "Connection" ≠ text "Host" := by decide
  have hne' : text "Connection" ≠ text "User-Agent" := by decide
  cases v with
  | http10 =>
    have hhost : u.request.headerMap = Function.update (Function.update (fun _ => none)
        (text "User-Agent") (some (text "WebBench v1.5")))
        (text "Host") (some (hostPart url)) := u.headerMap_eq
    rw [hhost, Function.update_self, wantsKeepAlive, Function.update_of_ne hne,
      Function.update_of_ne hne']
    exact ⟨rfl, (Bool.and_false _).symm⟩
  | http11 =>
    have hhost : u.request.headerMap = Function.update (Function.update (Function.update
        (fun _ => none) (text "User-Agent") (some (text "WebBench v1.5"))) (text "Host")
        (some (hostPart url))) (text "Connection")
        (some (if st.isKeepAlive then text "keep-alive" else text "close")) := u.headerMap_eq
    rw [hhost, Function.update_of_ne hne.symm, Function.update_self, wantsKeepAlive,
      Function.update_self]
    refine ⟨rfl, ?_⟩
    cases st.isKeepAlive <;> decide

end Understood

end Read

/-! ## Runs -/

section Runs

open Event.Session (Brings isRead serving_of_run)

/-- A URL of the server's one page. -/
def pageUrl : Bytes := text "http://h:80/a?q"

/-- The benchmark without options, and that page. -/
theorem understood_pageUrl : Understood .default pageUrl .get .http11 where
  proxyHost := rfl
  method := rfl
  version := rfl
  url_ok := by decide +kernel
  hostPart_ne := by decide
  clear _ hw := absurd hw List.not_mem_nil
  document_ne := by decide

/-- Its document. -/
def pageDocument : Document := ⟨text "/pages/", text "a", text "x"⟩

end Runs

end WebServer.WebBench
