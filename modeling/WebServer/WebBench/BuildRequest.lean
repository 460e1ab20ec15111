import WebServer.Lib.Bytes
import WebServer.Lib.Numeral
import Mathlib.Data.List.TakeWhile

/-!
# WebBench/BuildRequest — the request, and the room for it

`BuildRequest` puts the request together in a buffer of fixed size, and cuts the host and the port
out of the URL into two more.  A copy is kept with its destination: the whole request always finds
room, since a URL has 1500 bytes at most, but nothing bounds a host or a port.
-/

namespace WebServer.WebBench

/-- `MAXHOSTNAMELEN`, the size of `host`. -/
def maxHostNameLen : ℕ := 64

/-- `REQUEST_SIZE`, the size of `request_buf`. -/
def requestSize : ℕ := 2048

/-- The size of `port_str`. -/
def portSize : ℕ := 10

/-- **The settings** of the command line that `BuildRequest` reads. -/
structure Settings where
  proxyHost : Option Bytes
  forceReload : Bool
  httpVersion : ℤ
  requestMethod : ℤ
  isKeepAlive : Bool
  port : ℤ

/-! ## Copies -/

/-- **A copy**: the size of its destination, where it begins there, and its bytes. -/
structure Copy where
  size : ℕ
  offset : ℕ
  source : Bytes

/-- The bytes and a null fit. -/
def Copy.Fits (c : Copy) : Prop := c.offset + c.source.length + 1 ≤ c.size

instance (c : Copy) : Decidable c.Fits := inferInstanceAs (Decidable (_ ≤ _))

/-- **What is built**, and the copies that were made for it. -/
structure Built where
  httpVersion : ℤ
  port : ℤ
  host : Bytes
  request : Bytes
  copies : List Copy

namespace Built

/-- **Every copy fits.** -/
def Fits (b : Built) : Prop := ∀ c ∈ b.copies, c.Fits

instance (b : Built) : Decidable b.Fits := inferInstanceAs (Decidable (∀ c ∈ _, _))

/-- `strcat(request_buf, s)` -/
def strcat (b : Built) (s : Bytes) : Built :=
  { b with request := b.request ++ s, copies := b.copies ++ [⟨requestSize, b.request.length, s⟩] }

/-- `strncpy(host, s, n)`, of a text that has so many bytes. -/
def copyHost (b : Built) (s : Bytes) : Built :=
  { b with host := s, copies := b.copies ++ [⟨maxHostNameLen, 0, s⟩] }

/-- `strncpy(port_str, s, n)` -/
def copyPort (b : Built) (s : Bytes) : Built :=
  { b with copies := b.copies ++ [⟨portSize, 0, s⟩] }

end Built

/-! ## The code -/

/-- `atoi` -/
def atoi (s : Bytes) : ℤ :=
  let digits (t : Bytes) : ℤ :=
    (Nat.ofDigits 10 ((t.takeWhile fun c => 48 ≤ c ∧ c ≤ 57).reverse.map byteDigit) : ℕ)
  match s.dropWhile Chr.isSpace with
  | 45 :: t => -digits t
  | 43 :: t => digits t
  | t => digits t

/-- `tolower` -/
def lower (c : UInt8) : UInt8 := if 65 ≤ c ∧ c ≤ 90 then c + 32 else c

/-- The request method. -/
def methodName : ℤ → Bytes
  | 1 => text "HEAD"
  | 2 => text "OPTIONS"
  | 3 => text "TRACE"
  | _ => text "GET"

/-- The version that a method and a proxy ask for. -/
def version (st : Settings) : ℤ :=
  let v := st.httpVersion
  let v := if st.forceReload ∧ st.proxyHost.isSome ∧ v < 1 then 1 else v
  let v := if st.requestMethod = 1 ∧ v < 1 then 1 else v
  let v := if st.requestMethod = 2 ∧ v < 2 then 2 else v
  if st.requestMethod = 3 ∧ v < 2 then 2 else v

/-- The method, and the globals as they are set. -/
def start (st : Settings) : Built :=
  ((⟨version st, st.port, [], [], []⟩ : Built).strcat (methodName st.requestMethod)).strcat
    (text " ")

/-- **The host, the port and the path** of a URL, from behind its `://` on; `slash` is where the
path begins. -/
def target (rest : Bytes) (slash : ℕ) (b : Built) : Built :=
  let b := match findChar rest Chr.colon (some 0) with
    | some colon =>
      if colon < slash then
        let portStr := (rest.drop (colon + 1)).take (slash - colon - 1)
        let port := atoi portStr
        { (b.copyHost (rest.take colon)).copyPort portStr with
          port := if port = 0 then 80 else port }
      else b.copyHost (rest.take slash)
    | none => b.copyHost (rest.take slash)
  b.strcat (rest.drop slash)

/-- The end of the request line. -/
def versionLine (b : Built) : Built :=
  (if b.httpVersion = 0 then b.strcat (text " HTTP/0.9")
    else if b.httpVersion = 1 then b.strcat (text " HTTP/1.0")
    else if b.httpVersion = 2 then b.strcat (text " HTTP/1.1")
    else b).strcat crlf

/-- The header of the program. -/
def userAgent (b : Built) : Built :=
  if b.httpVersion > 0 then b.strcat (text "User-Agent: WebBench v1.5\r\n") else b

/-- The header of the host. -/
def hostLine (st : Settings) (b : Built) : Built :=
  if st.proxyHost = none ∧ b.httpVersion > 0 then
    ((b.strcat (text "Host: ")).strcat b.host).strcat crlf
  else b

/-- The header that a proxy gets. -/
def pragma (st : Settings) (b : Built) : Built :=
  if st.forceReload ∧ st.proxyHost.isSome then b.strcat (text "Pragma: no-cache\r\n") else b

/-- The header of the connection. -/
def connection (st : Settings) (b : Built) : Built :=
  if b.httpVersion > 1 then
    (b.strcat (text "Connection: ")).strcat
      (if st.isKeepAlive then text "keep-alive\r\n" else text "close\r\n")
  else b

/-- The empty line. -/
def blankLine (b : Built) : Built := if b.httpVersion > 0 then b.strcat crlf else b

/-- What follows the target. -/
def finish (st : Settings) (b : Built) : Built :=
  blankLine (connection st (pragma st (hostLine st (userAgent (versionLine b)))))

/-- **`BuildRequest`**; nothing where it exits. -/
def buildRequest (st : Settings) (url : Bytes) : Option Built :=
  match findStr (text "://") url with
  | none => none
  | some p =>
    if url.length > 1500 then none
    else if st.proxyHost = none ∧ (url.take 7).map lower ≠ text "http://" then none
    else
      let rest := url.drop (p + 3)
      match findChar rest Chr.slash (some 0) with
      | none => none
      | some slash =>
        if st.proxyHost = none then some (finish st (target rest slash (start st)))
        else some (finish st ((start st).strcat url))

/-! ## The parts of a URL -/

/-- **Host and port**: what stands between the `://` and the next slash. -/
def authority (url : Bytes) : Bytes :=
  match findStr (text "://") url with
  | none => []
  | some p => (url.drop (p + 3)).takeWhile (· ≠ Chr.slash)

/-- The host, up to the first `:`. -/
def hostPart (url : Bytes) : Bytes := (authority url).takeWhile (· ≠ Chr.colon)

/-- The port, behind it. -/
def portText (url : Bytes) : Bytes := ((authority url).dropWhile (· ≠ Chr.colon)).drop 1

/-! ## Copies into the request -/

/-- **So many bytes are put behind the request**, and what fits without them fits with them, as long
as there is room. -/
structure Appends (n : ℕ) (b b' : Built) : Prop where
  host : b'.host = b.host
  length : b'.request.length ≤ b.request.length + n
  fits : b.request.length + n + 1 ≤ requestSize → (b'.Fits ↔ b.Fits)

section Appends

variable {b b' b'' : Built} {st : Settings} {n m : ℕ}

/-- One more copy. -/
theorem fits_concat (b : Built) (c : Copy) :
    (∀ d ∈ b.copies ++ [c], d.Fits) ↔ b.Fits ∧ c.Fits := by
  rw [List.forall_mem_append, List.forall_mem_singleton]
  rfl

theorem fits_strcat (b : Built) (s : Bytes) :
    (b.strcat s).Fits ↔ b.Fits ∧ b.request.length + s.length + 1 ≤ requestSize := fits_concat b _

theorem fits_copyHost (b : Built) (s : Bytes) :
    (b.copyHost s).Fits ↔ b.Fits ∧ s.length < maxHostNameLen := by
  refine (fits_concat b _).trans (and_congr_right fun _ => ?_)
  rw [Copy.Fits, Nat.zero_add, Nat.succ_le_iff]

theorem fits_copyPort (b : Built) (s : Bytes) :
    (b.copyPort s).Fits ↔ b.Fits ∧ s.length < portSize := by
  refine (fits_concat b _).trans (and_congr_right fun _ => ?_)
  rw [Copy.Fits, Nat.zero_add, Nat.succ_le_iff]

namespace Appends

theorem refl (n : ℕ) (b : Built) : Appends n b b := ⟨rfl, Nat.le_add_right .., fun _ => Iff.rfl⟩

theorem trans (h : Appends n b b') (h' : Appends m b' b'') : Appends (n + m) b b'' where
  host := h'.host.trans h.host
  length := h'.length.trans (Nat.add_assoc .. ▸ Nat.add_le_add_right h.length m)
  fits hroom := by
    have hlen := h.length
    exact (h'.fits (by omega)).trans (h.fits (by omega))

theorem strcat {s : Bytes} (h : s.length ≤ n) (b : Built) : Appends n b (b.strcat s) where
  host := rfl
  length := List.length_append.trans_le (Nat.add_le_add_left h _)
  fits hroom := (fits_strcat b s).trans (and_iff_left (by omega))

theorem ite {p : Prop} [Decidable p] (h : Appends n b b') (h' : Appends n b b'') :
    Appends n b (if p then b' else b'') := by
  split
  · exact h
  · exact h'

end Appends

theorem versionLine_appends (b : Built) : Appends 11 b (versionLine b) :=
  Appends.trans (n := 9) (m := 2)
    (.ite (.strcat (by decide) b) (.ite (.strcat (by decide) b) (.ite (.strcat (by decide) b)
      (.refl 9 b)))) (.strcat (by decide) _)

theorem userAgent_appends (b : Built) : Appends 27 b (userAgent b) :=
  .ite (.strcat (by decide) b) (.refl 27 b)

theorem hostLine_appends (st : Settings) (b : Built) :
    Appends (6 + b.host.length + 2) b (hostLine st b) :=
  .ite (((Appends.strcat (by decide) b).trans (.strcat le_rfl _)).trans (.strcat (by decide) _))
    (.refl _ b)

theorem pragma_appends (st : Settings) (b : Built) : Appends 18 b (pragma st b) :=
  .ite (.strcat (by decide) b) (.refl 18 b)

theorem connection_appends (st : Settings) (b : Built) : Appends 24 b (connection st b) := by
  refine .ite (Appends.trans (n := 12) (m := 12) (.strcat (by decide) b) (.strcat ?_ _))
    (.refl 24 b)
  split <;> decide

theorem blankLine_appends (b : Built) : Appends 2 b (blankLine b) :=
  .ite (.strcat (by decide) b) (.refl 2 b)

/-- **What follows the target takes 90 bytes at most**, and those of the host. -/
theorem finish_appends (st : Settings) (b : Built) :
    Appends (90 + b.host.length) b (finish st b) := by
  have hagent := (versionLine_appends b).trans (userAgent_appends _)
  have hhost := hostLine_appends st (userAgent (versionLine b))
  rw [hagent.host] at hhost
  have hall := (((hagent.trans hhost).trans (pragma_appends st _)).trans
    (connection_appends st _)).trans (blankLine_appends _)
  exact (by omega : 11 + 27 + (6 + b.host.length + 2) + 18 + 24 + 2 = 90 + b.host.length) ▸ hall

/-- The method and a blank take 8 bytes at most. -/
theorem start_appends (st : Settings) :
    Appends 8 ⟨version st, st.port, [], [], []⟩ (start st) := by
  have hname : (methodName st.requestMethod).length ≤ 7 := by
    unfold methodName
    split <;> decide
  exact Appends.trans (n := 7) (m := 1) (.strcat hname _) (.strcat (by decide) _)

theorem fits_start (st : Settings) : (start st).Fits := by
  have hroom : 0 + 8 + 1 ≤ requestSize := by decide
  exact ((start_appends st).fits hroom).mpr fun _ h => absurd h List.not_mem_nil

end Appends

/-! ## Host and port -/

section Target

variable {a x y r rest : Bytes} {b : Built}

/-- **A colon in front of the slash** parts the host from the port. -/
theorem target_colon (hx : Chr.colon ∉ x) (y r : Bytes) (b : Built) :
    target (x ++ Chr.colon :: y ++ Chr.slash :: r) (x ++ Chr.colon :: y).length b
      = { (b.copyHost x).copyPort y with port := if atoi y = 0 then 80 else atoi y }.strcat
          (Chr.slash :: r) := by
  have hpath : (x ++ Chr.colon :: y ++ Chr.slash :: r).drop (x ++ Chr.colon :: y).length
      = Chr.slash :: r := List.drop_left
  have hlen : (x ++ Chr.colon :: y).length = x.length + (y.length + 1) := List.length_append
  have hrest : x ++ Chr.colon :: y ++ Chr.slash :: r = x ++ Chr.colon :: (y ++ Chr.slash :: r) :=
    List.append_assoc ..
  have hfind : findChar (x ++ Chr.colon :: y ++ Chr.slash :: r) Chr.colon (some 0) =
      some x.length := by
    rw [hrest]
    exact findChar_zero hx _
  have hhost : (x ++ Chr.colon :: y ++ Chr.slash :: r).take x.length = x := by
    rw [hrest, List.take_left]
  have hport : ((x ++ Chr.colon :: y ++ Chr.slash :: r).drop (x.length + 1)).take
      ((x ++ Chr.colon :: y).length - x.length - 1) = y := by
    rw [hrest, hlen, Nat.add_sub_cancel_left, Nat.add_sub_cancel, ← List.drop_drop, List.drop_left]
    exact List.take_left
  rw [target, hfind]
  dsimp only
  rw [if_pos (by omega), hhost, hport, hpath]

/-- **Without a colon in front of the slash** all of it is the host. -/
theorem target_noColon (ha : Chr.colon ∉ a) (r : Bytes) (b : Built) :
    target (a ++ Chr.slash :: r) a.length b = (b.copyHost a).strcat (Chr.slash :: r) := by
  have hpath : (a ++ Chr.slash :: r).drop a.length = Chr.slash :: r := List.drop_left
  have hhost : (a ++ Chr.slash :: r).take a.length = a := List.take_left
  rw [target]
  split
  · next colon hfind =>
    have hbehind : ¬ colon < a.length := fun hlt => by
      obtain ⟨-, -, -, hat⟩ := findChar_some hfind
      rw [List.drop_append_of_le_length hlt.le, List.drop_eq_getElem_cons hlt] at hat
      exact ha ((List.cons.inj hat).1 ▸ List.getElem_mem hlt)
    rw [if_neg hbehind, hhost, hpath]
  · rw [hhost, hpath]

/-- **The copies of the host and of the port.** -/
theorem target_eq (ha : Chr.slash ∉ a) (r : Bytes) (b : Built) :
    ∃ b' : Built, target (a ++ Chr.slash :: r) a.length b = b'.strcat (Chr.slash :: r) ∧
      b'.host = a.takeWhile (· ≠ Chr.colon) ∧ b'.request = b.request ∧
      (b'.Fits ↔ b.Fits ∧ (a.takeWhile (· ≠ Chr.colon)).length < maxHostNameLen ∧
        ((a.dropWhile (· ≠ Chr.colon)).drop 1).length < portSize) := by
  by_cases hcolon : Chr.colon ∈ a
  · obtain ⟨x, y, rfl, hx⟩ := List.eq_append_cons_of_mem hcolon
    refine ⟨_, target_colon hx y r b, (takeWhile_append_cons hx y).symm, rfl, ?_⟩
    rw [takeWhile_append_cons hx, dropWhile_append_cons hx, List.drop_one, List.tail_cons,
      ← and_assoc, ← fits_copyHost]
    exact fits_copyPort (b.copyHost x) y
  · have htake : a.takeWhile (· ≠ Chr.colon) = a :=
      List.takeWhile_eq_self_iff.mpr fun _ hd => decide_eq_true fun e => hcolon (e ▸ hd)
    have hdrop : a.dropWhile (· ≠ Chr.colon) = [] :=
      List.dropWhile_eq_nil_iff.mpr fun _ hd => decide_eq_true fun e => hcolon (e ▸ hd)
    refine ⟨_, target_noColon hcolon r b, htake.symm, rfl, ?_⟩
    rw [htake, hdrop, fits_copyHost]
    exact and_congr_right fun _ => (and_iff_left (by decide)).symm

end Target

/-! ## Every copy fits -/

section Fits

variable {st : Settings} {url : Bytes} {b : Built}

/-- **What follows the target fits.** -/
theorem fits_finish (st : Settings) (b : Built)
    (hroom : b.request.length + b.host.length + 91 ≤ requestSize) :
    (finish st b).Fits ↔ b.Fits := (finish_appends st b).fits (by omega)

/-- **The URLs for which a request is built**, and the request. -/
theorem buildRequest_some (h : buildRequest st url = some b) : ∃ p r,
    findStr (text "://") url = some p ∧ url.drop (p + 3) = authority url ++ Chr.slash :: r ∧
      url.length ≤ 1500 ∧ Chr.slash ∉ authority url ∧ b = finish st (if st.proxyHost = none then
        target (authority url ++ Chr.slash :: r) (authority url).length (start st)
        else (start st).strcat url) := by
  rw [buildRequest] at h
  split at h
  · exact absurd h (Option.some_ne_none _).symm
  · next p hp =>
    obtain ⟨hlong, h⟩ := Option.ite_none_left_eq_some.mp h
    obtain ⟨-, h⟩ := Option.ite_none_left_eq_some.mp h
    dsimp only at h
    split at h
    · exact absurd h (Option.some_ne_none _).symm
    · next slash hslash =>
      have hmem : Chr.slash ∈ url.drop (p + 3) := by
        obtain ⟨-, -, -, hat⟩ := findChar_some hslash
        exact List.mem_of_mem_drop (hat ▸ List.mem_cons_self ..)
      obtain ⟨a, r, hrest, ha⟩ := List.eq_append_cons_of_mem hmem
      have hauthority : authority url = a := by
        rw [authority, hp]
        dsimp only
        rw [hrest, takeWhile_append_cons ha]
      rw [hrest, findChar_zero ha] at hslash
      obtain rfl := Option.some.inj hslash
      rw [hauthority]
      refine ⟨p, r, hp, hrest, not_lt.mp hlong, ha, ?_⟩
      rw [hrest] at h
      split at h
      · next hproxy => rw [if_pos hproxy, Option.some.inj h]
      · next hproxy => rw [if_neg hproxy, Option.some.inj h]

/-- **The copies fit exactly if the host and the port do**: of every URL and under all settings for
which the request is built. -/
theorem fits_iff (h : buildRequest st url = some b) :
    b.Fits ↔ st.proxyHost ≠ none ∨
      (hostPart url).length < maxHostNameLen ∧ (portText url).length < portSize := by
  obtain ⟨p, r, -, hrest, hshort, hslash, rfl⟩ := buildRequest_some h
  have hlen : (authority url ++ Chr.slash :: r).length ≤ url.length := by
    rw [← hrest, List.length_drop]
    exact Nat.sub_le ..
  have hstart : (start st).request.length ≤ 0 + 8 := (start_appends st).length
  have hhost : (start st).host = [] := (start_appends st).host
  have hsize : requestSize = 2048 := rfl
  by_cases hproxy : st.proxyHost = none
  · obtain ⟨b, hb, hbhost, hrequest, hfits⟩ := target_eq hslash r (start st)
    have hname : b.host.length ≤ (authority url).length := by
      rw [hbhost]
      exact (List.takeWhile_prefix _).length_le
    rw [List.length_append] at hlen
    have hroom : b.request.length + (Chr.slash :: r).length + b.host.length + 91 ≤ requestSize := by
      rw [hrequest]
      omega
    have hpath : (b.strcat (Chr.slash :: r)).request.length =
        b.request.length + (Chr.slash :: r).length := List.length_append
    rw [if_pos hproxy, hb, fits_finish st _ (by rw [hpath]; exact hroom), fits_strcat, hfits,
      and_iff_right (fits_start st), and_iff_left (by omega), or_iff_right (not_not.mpr hproxy)]
    rfl
  · have hurl : ((start st).strcat url).request.length = (start st).request.length + url.length :=
      List.length_append
    have hurlHost : ((start st).strcat url).host.length = 0 := congrArg List.length hhost
    rw [if_neg hproxy, fits_finish st _ (by omega), fits_strcat]
    exact iff_of_true ⟨fits_start st, by omega⟩ (.inl hproxy)

/-- The settings without options. -/
def Settings.default : Settings := ⟨none, false, 2, 0, false, 80⟩

/-- A host and a port. -/
theorem fits_port : ∃ b, buildRequest .default (text "http://a:80/") = some b ∧ b.Fits := by
  obtain ⟨b, hb⟩ : ∃ b, buildRequest .default (text "http://a:80/") = some b := ⟨_, rfl⟩
  exact ⟨b, hb, (fits_iff hb).mpr (.inr (by decide))⟩

/-- A URL whose host takes 64 bytes. -/
def longHost : Bytes := text "http://" ++ List.replicate 64 97 ++ text "/"

/-- **Such a host leaves no room for its null.** -/
theorem not_fits_longHost : ¬ ∀ (st : Settings) (url : Bytes) (b : Built),
    buildRequest st url = some b → b.Fits := by
  have hlong : ∃ b ∈ buildRequest .default longHost, ¬ b.Fits := by decide
  obtain ⟨b, hb, hnot⟩ := hlong
  exact fun hall => hnot (hall _ _ b hb)

end Fits

end WebServer.WebBench
