import LcmBridge.Core.Config
import LcmBridge.Core.Url

/-!
# Parsing URLs

What an LCM URL with query parameters means.

The parser reads the parameters from left to right, overwrites what an earlier
one has set, skips those it does not know, and gives up at the first value
that is not a number. `parse_eq_ok_iff` says what this comes to. The two
settings are read independently of one another: each is the last value given
under its key, and all values under either key have to be numbers, also those
that are overwritten. The order of parameters with different keys, and
parameters with other keys, do not enter into it.

Which of several errors is reported does depend on the order.

## Main definitions

* `udpmUrl`: A URL, put together from authority and parameters.
* `Blank`, `IsAuthority`, `IsParam`: Which strings it is put together from.
* `param`, `paramKey`, `values`: Parameters with a key.
* `LastParam`: The last parameter with a key has this value.
* `Describes`: What a URL says about its components.

## Theorems

* `parseParam_eq_ok_iff`: Parsing one parameter.
* `foldlM_parseParam_eq_ok_iff`: Parsing all of them.
* `parse_eq_ok_iff`: Parsing a URL.
* `parse_eq_of_values`: Only the values under the two keys matter.
* `parse_url_params`: When a URL is accepted, with what result, and what does
  not change it.
-/

namespace LcmBridge

open Checked Text

/-- A URL with this authority and these parameters. -/
def udpmUrl (hp : String) (params : List String) : String :=
  "udpm://" ++ hp ++ "?" ++ "&".intercalate params

/-- Nothing but white space. -/
def Blank (s : String) : Prop := ∀ c ∈ s.toList, isWhitespace c = true

/-- No white space. -/
def Unspaced (s : String) : Prop := ∀ c ∈ s.toList, isWhitespace c = false

instance (s : String) : Decidable (Blank s) := List.decidableBAll _ s.toList

instance (s : String) : Decidable (Unspaced s) := List.decidableBAll _ s.toList

/-- What may stand before the query string. -/
structure IsAuthority (hp : String) : Prop where
  no_query : '?' ∉ hp.toList
  unspaced : Unspaced hp

/-- What may stand between the separators of the query string. -/
structure IsParam (p : String) : Prop where
  no_sep : '&' ∉ p.toList
  unspaced : Unspaced p

instance (hp : String) : Decidable (IsAuthority hp) :=
  decidable_of_iff ('?' ∉ hp.toList ∧ Unspaced hp)
    ⟨fun h => ⟨h.1, h.2⟩, fun h => ⟨h.no_query, h.unspaced⟩⟩

instance (p : String) : Decidable (IsParam p) :=
  decidable_of_iff ('&' ∉ p.toList ∧ Unspaced p)
    ⟨fun h => ⟨h.1, h.2⟩, fun h => ⟨h.no_sep, h.unspaced⟩⟩

/-- The parameter that gives a key this value. -/
def param (key value : String) : String := key ++ "=" ++ value

/-- The key of a parameter, if it has an `=`. -/
def paramKey (p : String) : Option String := (splitOnce p '=').map Prod.fst

/-- The value of a parameter, if it has this key. -/
def valueOf (key p : String) : Option String :=
  (splitOnce p '=').bind (fun kv => if kv.1 = key then some kv.2 else none)

/-- The values that the parameters give a key, in order. -/
def values (key : String) (params : List String) : List String := params.filterMap (valueOf key)

/-- The last parameter with the key gives it this value. -/
def LastParam (key : String) (params : List String) (value : String) : Prop :=
  ∃ before after, params = before ++ param key value :: after ∧ ∀ v, param key v ∉ after

/-! ### Parameters -/

/-- The keys have no `=` in them. -/
theorem ttl_plain : '=' ∉ "ttl".toList := by decide

theorem recvBufSize_plain : '=' ∉ "recv_buf_size".toList := by decide

section Params

variable {key value p : String} {params params' : List String}

/-- A parameter has a value under a key exactly when it has the form
    `key=value`. -/
theorem valueOf_eq_some_iff (hkey : '=' ∉ key.toList) :
    valueOf key p = some value ↔ p = param key value := by
  unfold valueOf
  rw [Option.bind_eq_some_iff]
  constructor
  · intro h
    rcases h with ⟨⟨k, v⟩, hsplit, hv⟩
    rcases splitOnce_eq_some_iff.mp hsplit with ⟨hp, _⟩
    dsimp only at hv
    by_cases hk : k = key
    · rw [if_pos hk, Option.some.injEq] at hv
      rw [hp, hk, hv]
      rfl
    · rw [if_neg hk] at hv
      exact absurd hv (by simp only [reduceCtorEq, not_false_eq_true])
  · intro h
    refine ⟨(key, value), splitOnce_eq_some_iff.mpr ⟨h, hkey⟩, ?_⟩
    rw [if_pos rfl]

theorem valueOf_eq_none_of_paramKey (h : paramKey p ≠ some key) : valueOf key p = none := by
  unfold valueOf
  cases hsplit : splitOnce p '=' with
  | none => rfl
  | some kv =>
      have hk : kv.1 ≠ key := by
        intro hk
        exact h (by rw [paramKey, hsplit, Option.map_some, hk])
      rw [Option.bind_some, if_neg hk]

theorem mem_values_iff (hkey : '=' ∉ key.toList) :
    value ∈ values key params ↔ param key value ∈ params := by
  unfold values
  rw [List.mem_filterMap]
  simp only [valueOf_eq_some_iff hkey]
  exact exists_eq_right

theorem values_eq_nil (hkey : '=' ∉ key.toList) (h : ∀ v, param key v ∉ params) :
    values key params = [] := by
  rw [List.eq_nil_iff_forall_not_mem]
  intro v hv
  exact h v ((mem_values_iff hkey).mp hv)

/-- The last parameter with a key gives the last value. -/
theorem values_of_lastParam (hkey : '=' ∉ key.toList) (h : LastParam key params value) :
    ∃ before, values key params = before ++ [value] := by
  rcases h with ⟨before, after, rfl, hafter⟩
  have hnone := values_eq_nil hkey hafter
  refine ⟨values key before, ?_⟩
  unfold values at hnone ⊢
  rw [List.filterMap_append, List.filterMap_cons, (valueOf_eq_some_iff hkey).mpr rfl, hnone]

section Settings

variable {τ ε : Type} {parse : String → Except ε τ} {init t : τ}

/-- The last parameter with a key decides the setting. -/
theorem parse_of_lastParam (hkey : '=' ∉ key.toList)
    (h : LastValue parse init (values key params) t) (hlast : LastParam key params value) :
    parse value = .ok t := by
  rcases values_of_lastParam hkey hlast with ⟨before, hvalues⟩
  rw [hvalues] at h
  exact (lastValue_concat.mp h).2

/-- Without a parameter with the key the setting stays as it is. -/
theorem eq_init_of_absent (hkey : '=' ∉ key.toList)
    (h : LastValue parse init (values key params) t) (habsent : ∀ v, param key v ∉ params) :
    t = init := by
  rw [values_eq_nil hkey habsent] at h
  exact lastValue_nil.mp h

end Settings

/-- Parameters with other keys, or none, contribute no value. -/
theorem values_filter {keep : String → Bool} (h : ∀ p, paramKey p = some key → keep p = true) :
    values key (params.filter keep) = values key params := by
  unfold values
  rw [List.filterMap_filter]
  refine List.filterMap_congr (fun p _ => ?_)
  by_cases hp : keep p = true
  · rw [if_pos hp]
  · rw [if_neg hp, valueOf_eq_none_of_paramKey (fun hk => hp (h p hk))]

theorem values_eq_of_filter {keep : String → Bool} (heq : params'.filter keep = params.filter keep)
    (h : ∀ p, paramKey p = some key → keep p = true) :
    values key params' = values key params := by
  rw [← values_filter h, heq, values_filter h]

end Params

/-! ### The query string -/

section Query

variable {settings settings' : UInt32 × Option (Fin Checked.usizeBound)} {p : String}
  {params : List String}

/-- Parsing one parameter sets what it has a value for, if the value can be
    read, and nothing else. -/
theorem parseParam_eq_ok_iff :
    parseParam settings p = .ok settings' ↔
      (valueOf "ttl" p).elim (settings'.1 = settings.1) (fun v => parseU32 v = .ok settings'.1) ∧
        (valueOf "recv_buf_size" p).elim (settings'.2 = settings.2)
          (fun v => (parseUsize v).map some = .ok settings'.2) := by
  unfold parseParam valueOf
  cases hsplit : splitOnce p '=' with
  | none =>
      simp only [Option.bind_none, Option.elim_none, Except.ok.injEq, Prod.ext_iff, eq_comm]
  | some kv =>
      obtain ⟨key, value⟩ := kv
      simp only [Option.bind_some]
      by_cases httl : key = "ttl"
      · have hne : key ≠ "recv_buf_size" := by
          rw [httl]
          decide
        simp only [if_pos httl, if_neg hne, Option.elim_some, Option.elim_none, bind_eq_ok,
          mapError_eq_ok_iff, pure, Except.pure, Except.ok.injEq, Prod.ext_iff]
        constructor
        · intro h
          rcases h with ⟨ttl, hread, rfl, hsize⟩
          exact ⟨hread, hsize.symm⟩
        · intro h
          exact ⟨settings'.1, h.1, rfl, h.2.symm⟩
      · by_cases hsize : key = "recv_buf_size"
        · simp only [if_neg httl, if_pos hsize, Option.elim_some, Option.elim_none,
            bind_eq_ok, mapError_eq_ok_iff, map_eq_ok_iff, pure, Except.pure,
            Except.ok.injEq, Prod.ext_iff]
          constructor
          · intro h
            rcases h with ⟨size, hread, httl, hsome⟩
            exact ⟨httl.symm, size, hread, hsome⟩
          · intro h
            rcases h with ⟨httl, size, hread, hsome⟩
            exact ⟨size, hread, httl.symm, hsome⟩
        · simp only [if_neg httl, if_neg hsize, Option.elim_none, Except.ok.injEq, Prod.ext_iff,
            eq_comm]

-- Induction on the parameters, from any settings. The settings after the first
-- parameter are a pair, and each half is a value that its setting starts from.
theorem foldlM_parseParam_eq_ok_iff :
    params.foldlM parseParam settings = .ok settings' ↔
      LastValue parseU32 settings.1 (values "ttl" params) settings'.1 ∧
        LastValue (fun v => (parseUsize v).map some) settings.2 (values "recv_buf_size" params)
          settings'.2 := by
  induction params generalizing settings with
  | nil =>
      simp only [List.foldlM_nil, values, List.filterMap_nil, lastValue_nil, pure, Except.pure,
        Except.ok.injEq, Prod.ext_iff, eq_comm]
  | cons p params ih =>
      rw [List.foldlM_cons, bind_eq_ok, values, values, lastValue_filterMap_cons,
        lastValue_filterMap_cons]
      simp only [parseParam_eq_ok_iff, ih]
      constructor
      · intro h
        rcases h with ⟨mid, ⟨httl, hsize⟩, hrest, hrest'⟩
        exact ⟨⟨mid.1, httl, hrest⟩, mid.2, hsize, hrest'⟩
      · intro h
        rcases h with ⟨⟨ttl, httl, hrest⟩, size, hsize, hrest'⟩
        exact ⟨(ttl, size), ⟨httl, hsize⟩, hrest, hrest'⟩

end Query

/-! ### The URL -/

/-- An authority and parameters say that these are the components: the group
    and the port are before and after the last colon, and each setting is the
    last value under its key. -/
structure Describes (hp : String) (params : List String) (url : LcmUrl) : Prop where
  authority : ∃ group port, hp = group ++ ":" ++ port ∧ ':' ∉ port.toList ∧
    parseIpv4 group = .ok url.multicastGroup ∧ parseU16 port = .ok url.port
  ttl : LastValue parseU32 0 (values "ttl" params) url.ttl
  recvBufSize : LastValue (fun v => (parseUsize v).map some) none
    (values "recv_buf_size" params) url.recvBufSize

/-- There are components to describe exactly when the authority and all values
    under the two keys can be read. -/
theorem exists_describes_iff {hp : String} {params : List String} :
    (∃ url, Describes hp params url) ↔
      (∃ groupStr portStr group port, hp = groupStr ++ ":" ++ portStr ∧ ':' ∉ portStr.toList ∧
        parseIpv4 groupStr = .ok group ∧ parseU16 portStr = .ok port) ∧
      (∀ v, param "ttl" v ∈ params → ∃ n, parseU32 v = .ok n) ∧
      (∀ v, param "recv_buf_size" v ∈ params → ∃ n, parseUsize v = .ok n) := by
  have hmem : ∀ v, param "ttl" v ∈ params ↔ v ∈ values "ttl" params :=
    fun v => (mem_values_iff ttl_plain).symm
  have hmem' : ∀ v, param "recv_buf_size" v ∈ params ↔ v ∈ values "recv_buf_size" params :=
    fun v => (mem_values_iff recvBufSize_plain).symm
  simp only [hmem, hmem']
  constructor
  · intro h
    rcases h with ⟨url, ⟨groupStr, portStr, hauthority⟩, httl, hsize⟩
    refine ⟨⟨groupStr, portStr, _, _, hauthority⟩, httl.1, fun v hv => ?_⟩
    rcases hsize.1 v hv with ⟨_, hsome⟩
    rcases map_eq_ok_iff.mp hsome with ⟨n, hn, _⟩
    exact ⟨n, hn⟩
  · intro h
    rcases h with ⟨⟨groupStr, portStr, group, port, hauthority⟩, httl, hsize⟩
    rcases exists_lastValue_iff.mpr httl with ⟨ttl, httl⟩
    have hsize' : ∀ v ∈ values "recv_buf_size" params,
        ∃ u, (parseUsize v).map some = .ok u := by
      intro v hv
      rcases hsize v hv with ⟨n, hn⟩
      exact ⟨some n, map_eq_ok_iff.mpr ⟨n, hn, rfl⟩⟩
    rcases exists_lastValue_iff.mpr hsize' with ⟨size, hsize⟩
    exact ⟨⟨group, port, ttl, size⟩, ⟨groupStr, portStr, hauthority⟩, httl, hsize⟩

section Urls

variable {ws ws' hp : String} {params params' : List String} {url : LcmUrl}

theorem unspaced_append {s s' : String} (h : Unspaced s) (h' : Unspaced s') :
    Unspaced (s ++ s') := by
  intro c hc
  rw [String.toList_append] at hc
  rcases List.mem_append.mp hc with hc | hc
  · exact h c hc
  · exact h' c hc

theorem parseAddress_eq_ok_iff {text : String} {group : Ipv4Addr} {port : UInt16} :
    parseAddress text hp = .ok (group, port) ↔
      ∃ groupStr portStr, hp = groupStr ++ ":" ++ portStr ∧ ':' ∉ portStr.toList ∧
        parseIpv4 groupStr = .ok group ∧ parseU16 portStr = .ok port := by
  have hsplit : ∀ groupStr portStr, rsplitOnce hp ':' = some (groupStr, portStr) ↔
      hp = groupStr ++ ":" ++ portStr ∧ ':' ∉ portStr.toList :=
    fun groupStr portStr => rsplitOnce_eq_some_iff (a := groupStr) (b := portStr)
  constructor
  · intro h
    unfold parseAddress at h
    cases hparts : rsplitOnce hp ':' with
    | none => simp only [hparts, reduceCtorEq] at h
    | some parts =>
        obtain ⟨groupStr, portStr⟩ := parts
        simp only [hparts, bind_eq_ok, mapError_eq_ok_iff, pure, Except.pure, Except.ok.injEq,
          Prod.mk.injEq] at h
        rcases h with ⟨group', hgroup, port', hport, rfl, rfl⟩
        rcases (hsplit groupStr portStr).mp hparts with ⟨heq, hcolon⟩
        exact ⟨groupStr, portStr, heq, hcolon, hgroup, hport⟩
  · intro h
    rcases h with ⟨groupStr, portStr, heq, hcolon, hgroup, hport⟩
    have hparts := (hsplit groupStr portStr).mpr ⟨heq, hcolon⟩
    simp only [parseAddress, hparts, bind_eq_ok, mapError_eq_ok_iff, pure, Except.pure,
      Except.ok.injEq, Prod.mk.injEq]
    exact ⟨group, hgroup, port, hport, rfl, rfl⟩

/-- Joining parameters brings in no white space. -/
theorem unspaced_intercalate (h : ∀ p ∈ params, Unspaced p) : Unspaced ("&".intercalate params) := by
  induction params with
  | nil =>
      rw [String.intercalate_nil]
      intro c hc
      exact absurd hc List.not_mem_nil
  | cons p params ih =>
      rw [List.forall_mem_cons] at h
      by_cases hnil : params = []
      · rw [hnil, String.intercalate_singleton]
        exact h.1
      · rw [String.intercalate_cons_of_ne_nil hnil]
        exact unspaced_append (unspaced_append h.1 (by decide)) (ih h.2)

theorem unspaced_udpmUrl (hhp : IsAuthority hp) (hparams : ∀ p ∈ params, IsParam p) :
    Unspaced (udpmUrl hp params) := by
  have hquery := unspaced_intercalate (fun p hp => (hparams p hp).unspaced)
  exact unspaced_append (unspaced_append (unspaced_append (by decide) hhp.unspaced) (by decide))
    hquery

/-- No parameters are parsed like a single empty one. -/
theorem foldlM_split_query (hparams : ∀ p ∈ params, IsParam p) :
    (split ("&".intercalate params) '&').foldlM parseParam (0, none)
      = params.foldlM parseParam (0, none) := by
  have hsplit : split ("&".intercalate params) '&' = if params = [] then [""] else params :=
    split_intercalate (fun p hp => (hparams p hp).no_sep)
  rw [hsplit]
  by_cases hnil : params = []
  · rw [if_pos hnil, hnil]
    rfl
  · rw [if_neg hnil]

/-- Parsing a URL put together from its parts is parsing the parts. -/
theorem parse_udpmUrl (hws : Blank ws) (hws' : Blank ws') (hhp : IsAuthority hp)
    (hparams : ∀ p ∈ params, IsParam p) :
    LcmUrl.parse (ws ++ udpmUrl hp params ++ ws') = (do
      let (multicastGroup, port) ← parseAddress (udpmUrl hp params) hp
      let (ttl, recvBufSize) ← params.foldlM parseParam (0, none)
      return { multicastGroup, port, ttl, recvBufSize }) := by
  have hne : (udpmUrl hp params).toList ≠ [] := by
    simp only [udpmUrl, String.toList_append, ne_eq, List.append_eq_nil_iff, not_and]
    intro h
    exact absurd h.1.1 (by decide)
  have hstrip : stripPrefix (udpmUrl hp params) "udpm://"
      = some (hp ++ "?" ++ "&".intercalate params) := by
    rw [stripPrefix_eq_some_iff, udpmUrl]
    simp only [String.append_assoc]
  have hquery : splitOnce (hp ++ "?" ++ "&".intercalate params) '?'
      = some (hp, "&".intercalate params) :=
    splitOnce_eq_some_iff.mpr ⟨rfl, hhp.no_query⟩
  unfold LcmUrl.parse
  rw [trim_eq hws (unspaced_udpmUrl hhp hparams) hws' hne]
  simp only [hstrip, hquery, foldlM_split_query hparams]

/-- A URL is parsed to the components that its parts describe, and if they
    describe none, it is refused. -/
theorem parse_eq_ok_iff (hws : Blank ws) (hws' : Blank ws') (hhp : IsAuthority hp)
    (hparams : ∀ p ∈ params, IsParam p) :
    LcmUrl.parse (ws ++ udpmUrl hp params ++ ws') = .ok url ↔ Describes hp params url := by
  rw [parse_udpmUrl hws hws' hhp hparams, bind_eq_ok]
  constructor
  · intro h
    rcases h with ⟨⟨group, port⟩, haddress, h⟩
    rcases bind_eq_ok.mp h with ⟨⟨ttl, size⟩, hquery, h⟩
    rw [parseAddress_eq_ok_iff] at haddress
    rw [foldlM_parseParam_eq_ok_iff] at hquery
    simp only [pure, Except.pure, Except.ok.injEq] at h
    rw [← h]
    exact ⟨haddress, hquery.1, hquery.2⟩
  · intro h
    refine ⟨(url.multicastGroup, url.port), parseAddress_eq_ok_iff.mpr h.authority, ?_⟩
    refine bind_eq_ok.mpr ⟨(url.ttl, url.recvBufSize), ?_, rfl⟩
    exact foldlM_parseParam_eq_ok_iff.mpr ⟨h.ttl, h.recvBufSize⟩

/-- The default of the configuration is the parser's own default. -/
example : LcmUrl.parse defaultLcmUrl = .ok LcmUrl.default := rfl

/-- Parameters that give both keys the same values, in the same order, give the
    same result. -/
theorem parse_eq_of_values (hws : Blank ws) (hws' : Blank ws') (hhp : IsAuthority hp)
    (hparams : ∀ p ∈ params, IsParam p) (hparams' : ∀ p ∈ params', IsParam p)
    (httl : values "ttl" params' = values "ttl" params)
    (hsize : values "recv_buf_size" params' = values "recv_buf_size" params) :
    (LcmUrl.parse (ws ++ udpmUrl hp params' ++ ws')).toOption
      = (LcmUrl.parse (ws ++ udpmUrl hp params ++ ws')).toOption := by
  refine toOption_eq_of_iff (fun url => ?_)
  rw [parse_eq_ok_iff hws hws' hhp hparams, parse_eq_ok_iff hws hws' hhp hparams']
  constructor
  · intro h
    exact ⟨h.authority, httl ▸ h.ttl, hsize ▸ h.recvBufSize⟩
  · intro h
    exact ⟨h.authority, httl.symm ▸ h.ttl, hsize.symm ▸ h.recvBufSize⟩

end Urls

/-- A URL with any authority and any query parameters, surrounded by any white
    space, is accepted exactly when the authority is an address and a port and
    all values under the two keys are numbers, also those given before the
    last. The result holds the address, the port, and the last value under
    each key. It is the same for every order of the parameters in which those
    with equal keys stay in order, and without the parameters that have
    another key or none. -/
theorem parse_url_params {ws ws' hp : String} {params : List String} (hws : Blank ws)
    (hws' : Blank ws') (hhp : IsAuthority hp) (hparams : ∀ p ∈ params, IsParam p) :
    ((∃ url, LcmUrl.parse (ws ++ udpmUrl hp params ++ ws') = .ok url) ↔
      (∃ groupStr portStr group port, hp = groupStr ++ ":" ++ portStr ∧ ':' ∉ portStr.toList ∧
        parseIpv4 groupStr = .ok group ∧ parseU16 portStr = .ok port) ∧
      (∀ v, param "ttl" v ∈ params → ∃ n, parseU32 v = .ok n) ∧
      (∀ v, param "recv_buf_size" v ∈ params → ∃ n, parseUsize v = .ok n)) ∧
    (∀ url, LcmUrl.parse (ws ++ udpmUrl hp params ++ ws') = .ok url →
      (∃ groupStr portStr, hp = groupStr ++ ":" ++ portStr ∧ ':' ∉ portStr.toList ∧
        parseIpv4 groupStr = .ok url.multicastGroup ∧ parseU16 portStr = .ok url.port) ∧
      (∀ v, LastParam "ttl" params v → parseU32 v = .ok url.ttl) ∧
      ((∀ v, param "ttl" v ∉ params) → url.ttl = 0) ∧
      (∀ v, LastParam "recv_buf_size" params v →
        ∃ n, parseUsize v = .ok n ∧ url.recvBufSize = some n) ∧
      ((∀ v, param "recv_buf_size" v ∉ params) → url.recvBufSize = none)) ∧
    (∀ params', params'.Perm params →
      (∀ key, params'.filter (fun p => paramKey p = some key)
        = params.filter (fun p => paramKey p = some key)) →
      (LcmUrl.parse (ws ++ udpmUrl hp params' ++ ws')).toOption
        = (LcmUrl.parse (ws ++ udpmUrl hp params ++ ws')).toOption) ∧
    (∀ params', (∀ p ∈ params', IsParam p) →
      params'.filter (fun p => paramKey p = some "ttl" ∨ paramKey p = some "recv_buf_size")
        = params.filter (fun p => paramKey p = some "ttl" ∨ paramKey p = some "recv_buf_size") →
      (LcmUrl.parse (ws ++ udpmUrl hp params' ++ ws')).toOption
        = (LcmUrl.parse (ws ++ udpmUrl hp params ++ ws')).toOption) := by
  refine ⟨?_, fun url hurl => ?_, fun params' hperm hkeys => ?_, fun params' hparams' hknown => ?_⟩
  · simp only [parse_eq_ok_iff hws hws' hhp hparams]
    exact exists_describes_iff
  · have h := (parse_eq_ok_iff hws hws' hhp hparams).mp hurl
    refine ⟨h.authority, fun v hlast => parse_of_lastParam ttl_plain h.ttl hlast,
      eq_init_of_absent ttl_plain h.ttl, fun v hlast => ?_,
      eq_init_of_absent recvBufSize_plain h.recvBufSize⟩
    have hsome := parse_of_lastParam recvBufSize_plain h.recvBufSize hlast
    rcases map_eq_ok_iff.mp hsome with ⟨n, hn, hsome⟩
    exact ⟨n, hn, hsome.symm⟩
  · have hparams' : ∀ p ∈ params', IsParam p := fun p hp => hparams p (hperm.mem_iff.mp hp)
    refine parse_eq_of_values hws hws' hhp hparams hparams' ?_ ?_
    · exact values_eq_of_filter (hkeys "ttl") (fun _ h => decide_eq_true h)
    · exact values_eq_of_filter (hkeys "recv_buf_size") (fun _ h => decide_eq_true h)
  · refine parse_eq_of_values hws hws' hhp hparams hparams' ?_ ?_
    · exact values_eq_of_filter hknown (fun _ h => decide_eq_true (Or.inl h))
    · exact values_eq_of_filter hknown (fun _ h => decide_eq_true (Or.inr h))

/-- A value that is overwritten, one parameter without an `=`, one with an
    unknown key, and white space at both ends. -/
theorem parse_url_params_noise :
    ∃ url, LcmUrl.parse (" " ++ udpmUrl "239.255.76.67:7667"
        ["ttl=1", "ttl", "color=red", "ttl=2"] ++ "\n") = .ok url ∧
      parseU32 "2" = .ok url.ttl ∧ url.recvBufSize = none ∧
      (LcmUrl.parse (" " ++ udpmUrl "239.255.76.67:7667" ["ttl=1", "ttl=2"] ++ "\n")).toOption
        = some url := by
  have httl : ∀ v, param "ttl" v ∈ ["ttl=1", "ttl", "color=red", "ttl=2"] → v ∈ ["1", "2"] := by
    intro v hv
    exact (mem_values_iff ttl_plain).mpr hv
  have hsize : ∀ v, param "recv_buf_size" v ∉ ["ttl=1", "ttl", "color=red", "ttl=2"] := by
    intro v hv
    exact absurd ((mem_values_iff recvBufSize_plain).mpr hv) List.not_mem_nil
  rcases parse_url_params (show Blank " " by decide) (show Blank "\n" by decide)
      (show IsAuthority "239.255.76.67:7667" by decide)
      (show ∀ p ∈ ["ttl=1", "ttl", "color=red", "ttl=2"], IsParam p by decide) with
    ⟨haccept, hresult, _, hnoise⟩
  have hread : ∀ v ∈ ["1", "2"], ∃ n, parseU32 v = .ok n := by
    simp only [List.forall_mem_cons, List.not_mem_nil, false_imp_iff, implies_true, and_true]
    exact ⟨⟨1, rfl⟩, 2, rfl⟩
  rcases haccept.mpr ⟨⟨"239.255.76.67", "7667", ⟨239, 255, 76, 67⟩, 7667, rfl, by decide, rfl, rfl⟩,
    fun v hv => hread v (httl v hv), fun v hv => absurd hv (hsize v)⟩ with ⟨url, hurl⟩
  rcases hresult url hurl with ⟨_, hlast, _, _, habsent⟩
  have hsame := hnoise ["ttl=1", "ttl=2"] (by decide) (by decide)
  rw [hurl] at hsame
  refine ⟨url, hurl, hlast "2" ?_, habsent hsize, hsame⟩
  exact ⟨["ttl=1", "ttl", "color=red"], [], rfl, fun _ => List.not_mem_nil⟩

end LcmBridge
