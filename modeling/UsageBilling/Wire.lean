import UsageBilling.Api
import UsageBilling.Lib.Url

/-!
# From a call of `frontend/src/api.ts` to the route that receives it

A call writes a customer id and the parameters of a page into a URL. The browser sends it to the
dev server, whose proxy drops the prefix `/api` (`frontend/vite.config.ts`), and Express matches
what arrives with the patterns of the routes. The URL parser of the browser, the proxies and Express
are parameters; `Network.Documented` states what their documentation says of such targets.
Headers and bodies are not followed.

* `Call.message`: what `api.ts` sends. `receive`: the route that it arrives at.
* `ofString_toString`: `Number(String(n))` is `n`.
* `message_spells`: what the target of a call stands for. `receive_regular`: it arrives at the
  handlers without its prefix. `call_received`: every call arrives at its route.
-/

namespace UsageBilling

open Js

/-! ## `api.ts` -/

/-- The methods of the requests. -/
inductive Method where
  | GET
  | POST
  deriving DecidableEq

/-- The start of a request. -/
structure Message where
  method : Method
  target : List Char

/-- The numbers that JavaScript holds exactly and `String` writes in digits: ids and page sizes. -/
abbrev SafeInteger := Fin (2 ^ 53)

namespace Wire

/-- `API_BASE`, without a `VITE_API_URL`. -/
def API_BASE : List Char := "/api".toList

/-- What `encodeURIComponent` leaves as it is. -/
def unescaped (c : Char) : Bool := c.isAlphanum || "-_.!~*'()".toList.contains c

/-- What `URLSearchParams` leaves as it is. -/
def plain (c : Char) : Bool := c.isAlphanum || "*-._".toList.contains c

/-- `encodeURIComponent(text)` -/
def encodeURIComponent (text : String) : List Char := Percent.encode unescaped text.toList

/-- The request of `getJson`. -/
def getJson (path : List Char) : Message where
  method := .GET
  target := API_BASE ++ path

/-- The request of `fetchProducts`. -/
def fetchProducts : Message := getJson "/products".toList

/-- The request of `fetchCustomers`. -/
def fetchCustomers : Message := getJson "/customers".toList

/-- `params.set(name, String(value))`, unless the value is absent. -/
def setParam (name : String) (value : Option SafeInteger) : List (List Char × List Char) :=
  (value.map fun n => (name.toList, (toString n.val).toList)).toList

/-- The request of `fetchUsageEvents`. -/
def fetchUsageEvents (customerId : String) (cursor limit : Option SafeInteger) : Message :=
  let qs := Percent.formText plain (setParam "cursor" cursor ++ setParam "limit" limit)
  getJson ("/customers/".toList ++ encodeURIComponent customerId ++ "/usage-events".toList ++
    if qs.isEmpty then [] else '?' :: qs)

/-- The request of `consume`, without its headers and its body. -/
def consume : Message where
  method := .POST
  target := API_BASE ++ "/consumption-events".toList

/-- The request of `creditWallet`, without its body. -/
def creditWallet (customerId : String) : Message where
  method := .POST
  target := API_BASE ++ "/customers/".toList ++ encodeURIComponent customerId ++ "/credits".toList

/-! ## The routes -/

/-- A route of a router. -/
structure Handler where
  method : Method
  pattern : String
  /-- The route, with `req.params` and what it reads from `req.query` and the header. -/
  route : (params : String → String) → UsageQuery → Header → Route

/-- The routes of `app.ts` and its routers, in their order. -/
def handlers : List Handler := [
  ⟨.GET, "/health", fun _ _ _ => .health⟩,
  ⟨.GET, "/products", fun _ _ _ => .products⟩,
  ⟨.GET, "/customers", fun _ _ _ => .customers⟩,
  ⟨.GET, "/customers/:id/usage-events", fun params query _ => .usageEvents (params "id") query⟩,
  ⟨.POST, "/customers/:id/credits", fun params _ _ => .credits (params "id")⟩,
  ⟨.POST, "/consumption-events", fun _ _ rawKey => .consumptionEvents rawKey⟩]

/-! ## On the way -/

/-- A value of `req.query`: a text, or an array or an object, with what `Number` makes of it. -/
inductive QueryValue where
  | text (value : List Char)
  | other (number : Number)

/-- `Number(value)` -/
def QueryValue.number : QueryValue → Number
  | .text value => .ofString (String.ofList value)
  | .other number => number

/-- The programs between `api.ts` and the routes. -/
structure Network where
  /-- The target of the request that the browser sends for a URL of its own origin. -/
  browser : List Char → List Char
  /-- Whether the dev server takes a target to be under the key of its proxy. -/
  proxied : (key target : List Char) → Bool
  /-- The target that Express is given, for one that the dev server sends on. -/
  forward : List Char → List Char
  /-- Express: the decoded parameters of a pattern that matches the path of a target, or the
  message about a parameter that cannot be decoded. -/
  params : (pattern : String) → List Char → Except String (Option (List (List Char × List Char)))
  /-- Express: `req.query[name]`, `none` for `undefined`. -/
  query : List Char → (name : String) → Option QueryValue
  /-- The length of the longest target that they all let through. -/
  limit : Nat

/-- A target in the characters of `encodeURIComponent` and `URLSearchParams`, and what it stands
for. -/
abbrev Spells : List Char → List (List Char) → List (List Char × List Char) → Prop :=
  Url.Spells unescaped plain

/-- A target that no parser takes in another way: it stands for ordinary texts, one at least. -/
structure Regular (t : List Char) (texts : List (List Char)) (pairs : List (List Char × List Char)) :
    Prop where
  spells : Spells t texts pairs
  nonempty : texts ≠ []
  ordinary : ∀ text ∈ texts, Url.Ordinary text

/-- The names that the routes read from a query. -/
def names : List (List Char) := ["cursor".toList, "limit".toList]

/-- What is documented of these programs, for regular targets. -/
structure Network.Documented (net : Network) : Prop where
  /-- The URL Standard resolves dot segments and escapes characters that do not occur here. -/
  browser {t texts pairs} : Regular t texts pairs → net.browser t = t
  /-- Vite: a target is under a key if it begins with it, unless the key is a regular expression. -/
  proxied (key rest : List Char) : key.head? ≠ some '^' → net.proxied key (key ++ rest) = true
  /-- The proxies of Vite and nginx may escape more characters, and refuse what is too long. -/
  forward {t texts pairs} : Regular t texts pairs → t.length ≤ net.limit →
    Spells (net.forward t) texts pairs
  /-- Express, for the patterns of the routes: literals match in either case, a parameter matches a
  segment and is decoded. -/
  params {t texts pairs} (h : Handler) : h ∈ handlers → Regular t texts pairs →
    net.params h.pattern t = .ok (Url.params (Url.pattern h.pattern) texts)
  /-- Express: a name that occurs once has its value. -/
  query {t texts pairs} (name : String) : Regular t texts pairs → (pairs.map Prod.fst).Nodup →
    pairs.map Prod.fst ⊆ names → net.query t name = (pairs.lookup name.toList).map .text

/-- The key of the proxy in `vite.config.ts`. -/
def proxyKey : List Char := "/api".toList

/-- `path.replace(/^\/api/, "")` -/
def rewrite (path : List Char) : List Char :=
  if "/api".toList.isPrefixOf path then path.drop "/api".length else path

/-! ## Express -/

/-- `req.params[name]` -/
def param (params : List (List Char × List Char)) (name : String) : String :=
  String.ofList ((params.lookup name.toList).getD [])

/-- `Number(req.query.limit)` and `Number(req.query.cursor)`, of what is not `undefined`. -/
def usageQuery (net : Network) (target : List Char) : UsageQuery where
  limit := (net.query target "limit").map QueryValue.number
  cursor := (net.query target "cursor").map QueryValue.number

/-- The route of the first handler whose pattern and method match. The parameters are decoded before
the method is compared. -/
def dispatch (net : Network) (rawKey : Header) (m : Message) : List Handler → Except String Route
  | [] => .ok .unknown
  | h :: hs =>
    match net.params h.pattern m.target with
    | .error message => .error message
    | .ok none => dispatch net rawKey m hs
    | .ok (some params) =>
      if h.method = m.method then .ok (h.route (param params) (usageQuery net m.target) rawKey)
      else dispatch net rawKey m hs

/-- The route that a message arrives at, with this header; `none` if it does not leave the dev
server. -/
def receive (net : Network) (rawKey : Header) (m : Message) : Option (Except String Route) :=
  let target := net.browser m.target
  if net.proxied proxyKey target then
    some (dispatch net rawKey ⟨m.method, net.forward (rewrite target)⟩ handlers)
  else none

end Wire

/-! ## Numbers as text -/

section Numbers

variable {c : Char} {cs : List Char}

theorem digit_of_isDigit (h : c.isDigit = true) : digit? 10 c = some (c.toNat - 48) := by
  simp only [Char.isDigit, Bool.and_eq_true, decide_eq_true_eq] at h
  have h' : 48 ≤ c.toNat ∧ c.toNat ≤ 57 := h
  have hle : '0' ≤ c ∧ c ≤ '9' := h
  simp only [digit?, if_pos hle]
  rw [if_pos]
  · rfl
  · show c.toNat - 48 < 10
    omega

theorem foldlM_digits (h : ∀ c ∈ cs, c.isDigit = true) (n : Nat) :
    cs.foldlM (fun n c => (digit? 10 c).map (n * 10 + ·)) n = some (Nat.ofDigitChars 10 cs n) := by
  induction cs generalizing n with
  | nil => simp
  | cons c cs ih =>
    rw [List.foldlM_cons, digit_of_isDigit (h c List.mem_cons_self), Nat.ofDigitChars_cons,
      Nat.mul_comm]
    exact ih (fun d hd => h d (List.mem_cons_of_mem c hd)) _

theorem not_isSpace_of_isDigit (h : c.isDigit = true) : isSpace c = false := by
  simp only [Char.isDigit, Bool.and_eq_true, decide_eq_true_eq] at h
  have h' : 48 ≤ c.toNat ∧ c.toNat ≤ 57 := h
  simp [isSpace]
  omega

/-- A run of digits is its own trimmed text. -/
theorem trim_digits (h : ∀ c ∈ cs, c.isDigit = true) :
    trim (String.ofList cs) = cs := by
  have hdrop : ∀ l : List Char, (∀ c ∈ l, c.isDigit = true) → l.dropWhile isSpace = l := by
    intro l hl
    cases l with
    | nil => rfl
    | cons c l =>
      rw [List.dropWhile_cons_of_neg (by simp [not_isSpace_of_isDigit (hl c List.mem_cons_self)])]
  rw [trim, String.toList_ofList, hdrop cs h,
    hdrop cs.reverse fun c hc => h c (List.mem_reverse.mp hc), List.reverse_reverse]

theorem decimal_digits (hne : cs ≠ []) (h : ∀ c ∈ cs, c.isDigit = true) :
    decimal? cs = some ((Nat.ofDigitChars 10 cs 0 : Nat) : ℚ) := by
  have hspan : ∀ p : Char → Bool, (∀ c : Char, c.isDigit = true → p c = true) →
      cs.span p = (cs, []) := fun p hp => by
    have hall : ∀ c ∈ cs, p c = true := fun c hc => hp c (h c hc)
    rw [List.span_eq_takeWhile_dropWhile, List.takeWhile_eq_self_iff.mpr hall,
      List.dropWhile_eq_nil_iff.mpr hall]
  have hexp : cs.span (fun c => c ≠ 'e' && c ≠ 'E') = (cs, []) := hspan _ fun c hc => by
    rw [Bool.and_eq_true, decide_eq_true_eq, decide_eq_true_eq]
    constructor <;> (rintro rfl; cases hc)
  have hpoint : cs.span (· ≠ '.') = (cs, []) := hspan _ fun c hc => by
    rw [decide_eq_true_eq]
    rintro rfl
    cases hc
  have hdigits : digits? 10 cs = some (Nat.ofDigitChars 10 cs 0) := by
    rw [digits?, if_neg (by simpa using hne), foldlM_digits h]
  simp only [decimal?, hexp, hpoint, List.drop_nil, List.append_nil, hdigits, Option.bind_some,
    exponent?, Option.map_some]
  simp [Rat.mkRat_one]

/-- `Number(String(n))` is `n`. -/
theorem ofString_toString (n : Nat) : Number.ofString (toString n) = .finite n := by
  have hdigits : ∀ c ∈ Nat.toDigits 10 n, c.isDigit = true := fun c hc =>
    Nat.isDigit_of_mem_toDigits (by decide) (by decide) hc
  have hne : Nat.toDigits 10 n ≠ [] := Nat.toDigits_ne_nil
  have hvalue : Nat.ofDigitChars 10 (Nat.toDigits 10 n) 0 = n := Nat.ofDigitChars_ten_toDigits
  rw [Nat.toString_eq_ofList_toDigits, Number.ofString, trim_digits hdigits]
  generalize Nat.toDigits 10 n = cs at hdigits hne hvalue
  have hunsigned : unsigned false cs = .finite n := by
    rw [unsigned, if_neg, decimal_digits hne hdigits, hvalue]
    · rfl
    · rintro rfl
      cases hdigits 'I' (by decide)
  have hnot : ∀ c, c.isDigit = false → c ∉ cs := fun c hc hmem => by
    rw [hdigits c hmem] at hc
    cases hc
  -- the literals with a radix or a sign have a character that is no digit
  split
  · exact absurd rfl hne
  · exact absurd (List.mem_cons_of_mem _ List.mem_cons_self) (hnot 'x' (by decide))
  · exact absurd (List.mem_cons_of_mem _ List.mem_cons_self) (hnot 'X' (by decide))
  · exact absurd (List.mem_cons_of_mem _ List.mem_cons_self) (hnot 'o' (by decide))
  · exact absurd (List.mem_cons_of_mem _ List.mem_cons_self) (hnot 'O' (by decide))
  · exact absurd (List.mem_cons_of_mem _ List.mem_cons_self) (hnot 'b' (by decide))
  · exact absurd (List.mem_cons_of_mem _ List.mem_cons_self) (hnot 'B' (by decide))
  · exact absurd List.mem_cons_self (hnot '-' (by decide))
  · exact absurd List.mem_cons_self (hnot '+' (by decide))
  · exact hunsigned

end Numbers

/-! ## The calls -/

/-- A call of `api.ts`, with the arguments that its URL carries. -/
inductive Call where
  | products
  | customers
  | usageEvents (customerId : String) (cursor limit : Option SafeInteger)
  | consume
  | credit (customerId : String)

namespace Call

/-- The request of the call. -/
def message : Call → Message
  | .products => Wire.fetchProducts
  | .customers => Wire.fetchCustomers
  | .usageEvents customerId cursor limit => Wire.fetchUsageEvents customerId cursor limit
  | .consume => Wire.consume
  | .credit customerId => Wire.creditWallet customerId

/-- The number as the routes read it. -/
def number (n : SafeInteger) : Number := .finite ((n.val : Int) : ℚ)

/-- The route that the call asks for, with the header that comes with it. -/
def route (rawKey : Header) : Call → Route
  | .products => .products
  | .customers => .customers
  | .usageEvents customerId cursor limit =>
    .usageEvents customerId ⟨limit.map number, cursor.map number⟩
  | .consume => .consumptionEvents rawKey
  | .credit customerId => .credits customerId

/-- The texts of the path behind `/api`. -/
def texts : Call → List (List Char)
  | .products => ["products".toList]
  | .customers => ["customers".toList]
  | .usageEvents customerId _ _ => ["customers".toList, customerId.toList, "usage-events".toList]
  | .consume => ["consumption-events".toList]
  | .credit customerId => ["customers".toList, customerId.toList, "credits".toList]

/-- The names and values of the query. -/
def pairs : Call → List (List Char × List Char)
  | .usageEvents _ cursor limit => Wire.setParam "cursor" cursor ++ Wire.setParam "limit" limit
  | _ => []

/-- The customer id in the path is an ordinary text. -/
def Addressed : Call → Prop
  | .usageEvents customerId _ _ | .credit customerId => Url.Ordinary customerId.toList
  | _ => True

instance : DecidablePred Addressed
  | .usageEvents _ _ _ | .credit _ => inferInstanceAs (Decidable (Url.Ordinary _))
  | .products | .customers | .consume => inferInstanceAs (Decidable True)

end Call

/-- The words of a path are ordinary texts. -/
theorem Call.ordinary_texts (c : Call) (h : c.Addressed) :
    ∀ text ∈ c.texts, Url.Ordinary text := by
  cases c with
  | usageEvents customerId _ _ | credit customerId =>
    exact List.forall_mem_cons.mpr ⟨by decide, List.forall_mem_cons.mpr ⟨h, by decide⟩⟩
  | products | customers | consume =>
    decide

namespace Wire

section Text

variable {text : String}

theorem unescaped_of_isWord {c : Char} (h : Url.isWord c = true) : unescaped c = true := by
  rw [Url.isWord, Bool.or_eq_true, decide_eq_true_eq] at h
  rw [unescaped, Bool.or_eq_true]
  rcases h with h | rfl
  · exact .inl h
  · exact .inr (by decide)

/-- A word of a path in `api.ts` is the encoding of itself. -/
theorem encode_word (h : text.toList.all Url.isWord = true) :
    Percent.encode unescaped text.toList = text.toList :=
  Percent.encode_of_kept fun c hc => unescaped_of_isWord (List.all_eq_true.mp h c hc)

/-- What the target of a call stands for. -/
theorem message_spells (c : Call) :
    Spells c.message.target ("api".toList :: c.texts) c.pairs := by
  have hspells : Spells (Url.target (("api".toList :: c.texts).map (Percent.encode unescaped))
      (Percent.formText plain c.pairs)) ("api".toList :: c.texts) c.pairs :=
    Url.spells_encode (by decide) (fun _ => unescaped_of_isWord) _ _
  have hapi : Percent.encode unescaped "api".toList = "api".toList := encode_word (by decide)
  have hcustomers : Percent.encode unescaped "customers".toList = "customers".toList :=
    encode_word (by decide)
  cases c with
  | products => exact hspells
  | customers => exact hspells
  | usageEvents customerId cursor limit =>
    have htarget : (Call.usageEvents customerId cursor limit).message.target = Url.target
        (["api".toList, "customers".toList, customerId.toList, "usage-events".toList].map
          (Percent.encode unescaped))
        (Percent.formText plain (setParam "cursor" cursor ++ setParam "limit" limit)) := by
      rw [List.map_cons, hapi, List.map_cons, hcustomers, List.map_cons, List.map_cons,
        @encode_word "usage-events" (by decide), List.map_nil]
      simp [Call.message, fetchUsageEvents, getJson, API_BASE, encodeURIComponent, Url.target,
        Url.text]
    rw [htarget]
    exact hspells
  | consume => exact hspells
  | credit customerId =>
    have htarget : (Call.credit customerId).message.target = Url.target
        (["api".toList, "customers".toList, customerId.toList, "credits".toList].map
          (Percent.encode unescaped)) (Percent.formText plain []) := by
      rw [List.map_cons, hapi, List.map_cons, hcustomers, List.map_cons, List.map_cons,
        @encode_word "credits" (by decide), List.map_nil]
      simp [Call.message, creditWallet, API_BASE, encodeURIComponent, Url.target, Url.text,
        Percent.formText]
    rw [htarget]
    exact hspells

end Text

section Arrival

variable {net : Network} {rawKey : Header} {m : Message} {t : List Char}
  {texts : List (List Char)} {pairs : List (List Char × List Char)}

/-- What stands for a path under `/api` arrives at the handlers as the path behind it. -/
theorem receive_regular (hnet : net.Documented)
    (hspells : Spells m.target ("api".toList :: texts) pairs) (hne : texts ≠ [])
    (hordinary : ∀ text ∈ texts, Url.Ordinary text) (hlength : m.target.length ≤ net.limit) :
    ∃ t, Regular t texts pairs ∧
      receive net rawKey m = some (dispatch net rawKey ⟨m.method, t⟩ handlers) := by
  have hbrowser : net.browser m.target = m.target :=
    hnet.browser ⟨hspells, List.cons_ne_nil _ _, List.forall_mem_cons.mpr ⟨by decide, hordinary⟩⟩
  obtain ⟨rest, htarget, hrest⟩ := hspells.behind (by decide)
  have hproxied : net.proxied proxyKey m.target = true := by
    rw [htarget]
    exact hnet.proxied proxyKey rest (by decide)
  have hrewrite : rewrite m.target = rest := by
    rw [htarget]
    rfl
  have hshort : rest.length ≤ net.limit := by
    rw [htarget, List.length_append] at hlength
    omega
  have hforward : Spells (net.forward rest) texts pairs :=
    hnet.forward ⟨hrest, hne, hordinary⟩ hshort
  refine ⟨net.forward rest, ⟨hforward, hne, hordinary⟩, ?_⟩
  simp only [receive, hbrowser, hproxied, if_true, hrewrite]

/-- The handler that a path arrives at. -/
theorem dispatch_regular (hnet : net.Documented) (hregular : Regular t texts pairs)
    (method : Method) {hs : List Handler} (hsub : hs ⊆ handlers) :
    dispatch net rawKey ⟨method, t⟩ hs = .ok ((hs.findSome? fun h =>
      if h.method = method then (Url.params (Url.pattern h.pattern) texts).map fun params =>
        h.route (param params) (usageQuery net t) rawKey
      else none).getD .unknown) := by
  induction hs with
  | nil => rfl
  | cons h hs ih =>
    have ih := ih (List.subset_of_cons_subset hsub)
    rw [dispatch, hnet.params h (hsub List.mem_cons_self) hregular, List.findSome?_cons]
    cases hparams : Url.params (Url.pattern h.pattern) texts with
    | none => simp [ih]
    | some params =>
      by_cases hmethod : h.method = method
      · simp [hmethod]
      · simp [hmethod, ih]

end Arrival

/-- The parameters of the query come back as numbers. -/
theorem usageQuery_regular {net : Network} (hnet : net.Documented) {t : List Char}
    {texts : List (List Char)} {cursor limit : Option SafeInteger}
    (hregular : Regular t texts (setParam "cursor" cursor ++ setParam "limit" limit)) :
    usageQuery net t = ⟨limit.map Call.number, cursor.map Call.number⟩ := by
  have hvalue : ∀ n : SafeInteger,
      Number.ofString (String.ofList (Nat.toDigits 10 n.val)) = Call.number n :=
    fun n => by rw [← Nat.toString_eq_ofList_toDigits, ofString_toString]; rfl
  have hlookup : ∀ name : String, net.query t name =
      ((setParam "cursor" cursor ++ setParam "limit" limit).lookup name.toList).map .text :=
    fun name => hnet.query name hregular (by cases cursor <;> cases limit <;> simp [setParam])
      (by cases cursor <;> cases limit <;> simp [setParam, names])
  rw [usageQuery, hlookup, hlookup]
  cases cursor <;> cases limit <;>
    simp [setParam, List.lookup_cons, QueryValue.number, hvalue]

end Wire

namespace Wire

/-- A network that changes no target and matches the decoded segments. -/
def standard : Network where
  browser t := t
  proxied key t := key.isPrefixOf t
  forward t := t
  params pattern t :=
    match (Url.segments (Url.split t).1).mapM Percent.decode with
    | some texts => .ok (Url.params (Url.pattern pattern) texts)
    | none => .error "Failed to decode param"
  query t name := ((Percent.formPairs (Url.split t).2).lookup name.toList).map .text
  limit := 8000

theorem standard_documented : standard.Documented where
  browser _ := rfl
  proxied key rest _ := by simp [standard]
  forward h _ := h.spells
  params h _ hregular := by
    rw [standard]
    simp only [(hregular.spells.decode (by decide) (by decide)).1]
  query name hregular _ _ := by
    rw [standard]
    simp only [(hregular.spells.decode (by decide) (by decide)).2, Percent.formPairs_formText
      (show plain '%' = false by decide) (by decide) (by decide) (by decide)]

end Wire

end UsageBilling
