import BuildboxCommon.CommandLine.Grammar

set_option autoImplicit false

namespace BuildboxCommon

open ByteString CommandLine

structure ConnectionOptions where
  clientCertPath : Option Bytes := none
  clientKeyPath : Option Bytes := none
  accessTokenPath : Option Bytes := none
  instanceName : Option Bytes := none
  serverCertPath : Option Bytes := none
  url : Option Bytes := none
  useGoogleApiAuth : Bool := false
  tokenReloadInterval : Option Bytes := none
  loadBalancingPolicy : Option Bytes := none
  retryLimit : Option Bytes := some (text "4")
  retryDelay : Option Bytes := some (text "1000")

namespace ConnectionOptions

def dashes : Bytes := [dash, dash]

def behindPrefix (arg : Bytes) : Option Bytes → Option Bytes
  | none => some arg
  | some optionPrefix => if optionPrefix <+: arg then some (arg.drop optionPrefix.length) else none

def parseBehindPrefix (o : ConnectionOptions) (arg : Bytes) : Bool × ConnectionOptions :=
  if equals ∈ arg then
    let key := arg.takeWhile (· ≠ equals)
    let value := (arg.dropWhile (· ≠ equals)).drop 1
    if key = text "remote" then (true, { o with url := some value })
    else if key = text "instance" then (true, { o with instanceName := some value })
    else if key = text "server-cert" then (true, { o with serverCertPath := some value })
    else if key = text "client-key" then (true, { o with clientKeyPath := some value })
    else if key = text "client-cert" then (true, { o with clientCertPath := some value })
    else if key = text "access-token" then (true, { o with accessTokenPath := some value })
    else if key = text "retry-limit" then (true, { o with retryLimit := some value })
    else if key = text "retry-delay" then (true, { o with retryDelay := some value })
    else if key = text "token-reload-interval" then (true, { o with tokenReloadInterval := some value })
    else if key = text "load-balancing-policy" then (true, { o with loadBalancingPolicy := some value })
    else (false, o)
  else if arg = text "googleapi-auth" then (true, { o with useGoogleApiAuth := true })
  else (false, o)

def parseArg (o : ConnectionOptions) (arg optionPrefix : Option Bytes) : Bool × ConnectionOptions :=
  match arg with
  | none => (false, o)
  | some arg =>
    if charAt arg 0 ≠ dash ∨ charAt arg 1 ≠ dash then (false, o)
    else
      match behindPrefix (arg.drop 2) optionPrefix with
      | none => (false, o)
      | some arg => parseBehindPrefix o arg

def putArg (p name : Bytes) : Option Bytes → List Bytes
  | none => []
  | some value => [dashes ++ p ++ name ++ value]

def putArgs (o : ConnectionOptions) (optionPrefix : Option Bytes) : List Bytes :=
  let p := optionPrefix.getD []
  putArg p (text "remote=") o.url ++
  putArg p (text "instance=") o.instanceName ++
  putArg p (text "server-cert=") o.serverCertPath ++
  putArg p (text "client-key=") o.clientKeyPath ++
  putArg p (text "client-cert=") o.clientCertPath ++
  putArg p (text "access-token=") o.accessTokenPath ++
  putArg p (text "token-reload-interval=") o.tokenReloadInterval ++
  putArg p (text "retry-limit=") o.retryLimit ++
  putArg p (text "retry-delay=") o.retryDelay ++
  (if o.useGoogleApiAuth then [text "--googleapi-auth"] else []) ++
  putArg p (text "load-balancing-policy=") o.loadBalancingPolicy

def parseArgs (o : ConnectionOptions) (args : List Bytes) (optionPrefix : Option Bytes) : ConnectionOptions :=
  args.foldl (fun o arg => (parseArg o (some (cString arg)) optionPrefix).2) o

section Settings

inductive Setting where
  | remote
  | instanceName
  | serverCert
  | clientKey
  | clientCert
  | accessToken
  | tokenReloadInterval
  | retryLimit
  | retryDelay
  | loadBalancingPolicy
deriving DecidableEq

def Setting.key : Setting → Bytes
  | .remote => text "remote"
  | .instanceName => text "instance"
  | .serverCert => text "server-cert"
  | .clientKey => text "client-key"
  | .clientCert => text "client-cert"
  | .accessToken => text "access-token"
  | .tokenReloadInterval => text "token-reload-interval"
  | .retryLimit => text "retry-limit"
  | .retryDelay => text "retry-delay"
  | .loadBalancingPolicy => text "load-balancing-policy"

def read (o : ConnectionOptions) : Setting → Option Bytes
  | .remote => o.url
  | .instanceName => o.instanceName
  | .serverCert => o.serverCertPath
  | .clientKey => o.clientKeyPath
  | .clientCert => o.clientCertPath
  | .accessToken => o.accessTokenPath
  | .tokenReloadInterval => o.tokenReloadInterval
  | .retryLimit => o.retryLimit
  | .retryDelay => o.retryDelay
  | .loadBalancingPolicy => o.loadBalancingPolicy

def write (value : Bytes) (o : ConnectionOptions) : Setting → ConnectionOptions
  | .remote => { o with url := some value }
  | .instanceName => { o with instanceName := some value }
  | .serverCert => { o with serverCertPath := some value }
  | .clientKey => { o with clientKeyPath := some value }
  | .clientCert => { o with clientCertPath := some value }
  | .accessToken => { o with accessTokenPath := some value }
  | .tokenReloadInterval => { o with tokenReloadInterval := some value }
  | .retryLimit => { o with retryLimit := some value }
  | .retryDelay => { o with retryDelay := some value }
  | .loadBalancingPolicy => { o with loadBalancingPolicy := some value }

def ofRead (values : Setting → Option Bytes) (useGoogleApiAuth : Bool) : ConnectionOptions where
  url := values .remote
  instanceName := values .instanceName
  serverCertPath := values .serverCert
  clientKeyPath := values .clientKey
  clientCertPath := values .clientCert
  accessTokenPath := values .accessToken
  tokenReloadInterval := values .tokenReloadInterval
  retryLimit := values .retryLimit
  retryDelay := values .retryDelay
  loadBalancingPolicy := values .loadBalancingPolicy
  useGoogleApiAuth := useGoogleApiAuth

theorem ofRead_read (o : ConnectionOptions) : ofRead o.read o.useGoogleApiAuth = o := rfl

theorem read_write (value : Bytes) (o : ConnectionOptions) (setting other : Setting) :
    (write value o setting).read other = if other = setting then some value else o.read other := by
  cases setting <;> cases other <;> rfl

theorem read_flag (o : ConnectionOptions) (useGoogleApiAuth : Bool) (setting : Setting) :
    ({ o with useGoogleApiAuth := useGoogleApiAuth } : ConnectionOptions).read setting = o.read setting := by
  cases setting <;> rfl

@[simp] theorem write_useGoogleApiAuth (value : Bytes) (o : ConnectionOptions) (setting : Setting) :
    (write value o setting).useGoogleApiAuth = o.useGoogleApiAuth := by
  cases setting <;> rfl

def Setting.front : List Setting :=
  [.remote, .instanceName, .serverCert, .clientKey, .clientCert, .accessToken, .tokenReloadInterval, .retryLimit,
    .retryDelay]

def flag (o : ConnectionOptions) : List Bytes := if o.useGoogleApiAuth then [text "--googleapi-auth"] else []

def spelled (p value : Bytes) (setting : Setting) : Bytes := dashes ++ (p ++ setting.key ++ equals :: value)

def arguments (o : ConnectionOptions) (p : Bytes) (setting : Setting) : List Bytes :=
  (o.read setting).toList.map fun value => spelled p value setting

theorem putArg_eq (o : ConnectionOptions) (p : Bytes) (setting : Setting) {name : Bytes}
    (named : name = setting.key ++ [equals]) : putArg p name (o.read setting) = arguments o p setting := by
  subst named
  unfold arguments
  cases o.read setting with
  | none => rfl
  | some value => simp [putArg, spelled, List.append_assoc]

theorem putArgs_eq (o : ConnectionOptions) (optionPrefix : Option Bytes) : putArgs o optionPrefix =
    Setting.front.flatMap (arguments o (optionPrefix.getD [])) ++ flag o ++
      arguments o (optionPrefix.getD []) .loadBalancingPolicy := by
  have each (setting : Setting) {name : Bytes} (named : name = setting.key ++ [equals]) :=
    putArg_eq o (optionPrefix.getD []) setting named
  simp only [Setting.front, List.flatMap_cons, List.flatMap_nil, List.append_nil, ← List.append_assoc]
  rw [← each .remote rfl, ← each .instanceName rfl, ← each .serverCert rfl, ← each .clientKey rfl,
    ← each .clientCert rfl,
    ← each .accessToken rfl, ← each .tokenReloadInterval rfl, ← each .retryLimit rfl, ← each .retryDelay rfl,
    ← each .loadBalancingPolicy rfl]
  rfl

theorem equals_not_mem_key (setting : Setting) : equals ∉ setting.key := by
  cases setting <;> decide

theorem behindPrefix_append (rest : Bytes) (optionPrefix : Option Bytes) :
    behindPrefix (optionPrefix.getD [] ++ rest) optionPrefix = some rest := by
  cases optionPrefix with
  | none => rfl
  | some p => simp [behindPrefix]

theorem parseArg_dashes (o : ConnectionOptions) (arg : Bytes) (optionPrefix : Option Bytes) :
    parseArg o (some (dashes ++ arg)) optionPrefix =
      (behindPrefix arg optionPrefix).elim (false, o) (parseBehindPrefix o) := by
  change (match behindPrefix arg optionPrefix with
    | none => (false, o)
    | some arg => parseBehindPrefix o arg) = _
  cases behindPrefix arg optionPrefix <;> rfl

theorem parseArg_spelled (o : ConnectionOptions) (value : Bytes) (setting : Setting) {optionPrefix : Option Bytes} :
    parseArg o (some (spelled (optionPrefix.getD []) value setting)) optionPrefix = (true, write value o setting) := by
  obtain ⟨key, rest⟩ := cut_at_equals (equals_not_mem_key setting) value
  rw [spelled, parseArg_dashes, List.append_assoc, behindPrefix_append, Option.elim_some, parseBehindPrefix,
    if_pos (by simp)]
  simp only [key, rest, List.drop_succ_cons, List.drop_zero]
  cases setting <;> rfl

theorem parseArg_flag (o : ConnectionOptions) (optionPrefix : Option Bytes) :
    parseArg o (some (text "--googleapi-auth")) optionPrefix =
      if optionPrefix.getD [] = [] then (true, { o with useGoogleApiAuth := true }) else (false, o) := by
  change parseArg o (some (dashes ++ text "googleapi-auth")) optionPrefix = _
  rw [parseArg_dashes]
  cases optionPrefix with
  | none => rfl
  | some p =>
    rw [Option.getD_some]
    split_ifs with bare
    next =>
      subst bare
      rfl
    next =>
      unfold behindPrefix
      simp only
      split_ifs with leads
      next =>
        obtain ⟨rest, split⟩ := leads
        have free : equals ∉ rest := fun member => by
          have inside : equals ∈ text "googleapi-auth" := split ▸ List.mem_append_right p member
          exact absurd inside (by decide)
        have shorter : rest ≠ text "googleapi-auth" := by
          rintro rfl
          exact bare (List.append_left_eq_self.mp split)
        rw [← split, List.drop_left, Option.elim_some, parseBehindPrefix, if_neg free, if_neg shorter]
      next => rfl

end Settings

section RoundTrip

structure RoundTrips (o : ConnectionOptions) (optionPrefix : Option Bytes) : Prop where
  accepted : ∀ arg ∈ putArgs o optionPrefix, (parseArg {} (some (cString arg)) optionPrefix).1 = true
  restored : parseArgs {} (putArgs o optionPrefix) optionPrefix =
    { o with retryLimit := o.retryLimit.or (some (text "4")), retryDelay := o.retryDelay.or (some (text "1000")) }

variable {o : ConnectionOptions} {optionPrefix : Option Bytes}

theorem cString_spelled {p value : Bytes} (free : NulFree p) (valueFree : NulFree value) (setting : Setting) :
    cString (spelled p value setting) = spelled p value setting := by
  apply cString_of_nulFree
  have key : NulFree setting.key := by cases setting <;> decide
  have sign : NulFree (equals :: value) := by simpa [NulFree, equals, nul] using valueFree
  exact nulFree_append.mpr ⟨by decide, nulFree_append.mpr ⟨nulFree_append.mpr ⟨free, key⟩, sign⟩⟩

theorem parseArgs_append (start : ConnectionOptions) (first second : List Bytes) (optionPrefix : Option Bytes) :
    parseArgs start (first ++ second) optionPrefix =
      parseArgs (parseArgs start first optionPrefix) second optionPrefix :=
  List.foldl_append

theorem parseArgs_arguments (free : NulFree (optionPrefix.getD []))
    (valuesFree : ∀ setting value, o.read setting = some value → NulFree value) (settings : List Setting)
    (start : ConnectionOptions) :
    let parsed := parseArgs start (settings.flatMap (arguments o (optionPrefix.getD []))) optionPrefix
    (∀ setting, parsed.read setting =
      if setting ∈ settings then (o.read setting).or (start.read setting) else start.read setting) ∧
      parsed.useGoogleApiAuth = start.useGoogleApiAuth := by
  induction settings generalizing start with
  | nil => simp [parseArgs]
  | cons first settings ih =>
    have one : parseArgs start (arguments o (optionPrefix.getD []) first) optionPrefix =
        (o.read first).elim start fun value => write value start first := by
      unfold arguments
      cases found : o.read first with
      | none => rfl
      | some value =>
        simp only [Option.toList_some, List.map_cons, List.map_nil, parseArgs, List.foldl_cons, List.foldl_nil]
        rw [cString_spelled free (valuesFree first value found), parseArg_spelled]
        rfl
    rw [List.flatMap_cons, parseArgs_append, one]
    obtain ⟨read, flag⟩ := ih ((o.read first).elim start fun value => write value start first)
    refine ⟨fun setting => ?_, flag.trans ?_⟩
    next =>
      rw [read]
      cases found : o.read first with
      | none =>
        simp only [Option.elim_none, List.mem_cons]
        by_cases same : setting = first
        next => simp [same, found]
        next => simp [same]
      | some value =>
        simp only [Option.elim_some, List.mem_cons, read_write]
        by_cases same : setting = first
        next => simp [same, found]
        next => simp [same]
    next =>
      cases o.read first with
      | none => rfl
      | some value => exact write_useGoogleApiAuth value start first

theorem parseArgs_flag (start : ConnectionOptions) : parseArgs start (flag o) optionPrefix =
    { start with useGoogleApiAuth :=
        start.useGoogleApiAuth || (o.useGoogleApiAuth && (optionPrefix.getD []).isEmpty) } := by
  unfold flag
  cases o.useGoogleApiAuth with
  | false => simp [parseArgs]
  | true =>
    have whole : cString (text "--googleapi-auth") = text "--googleapi-auth" := rfl
    simp only [if_true, parseArgs, List.foldl_cons, List.foldl_nil, whole, parseArg_flag]
    split_ifs with bare
    next => simp [bare]
    next =>
      have filled : (optionPrefix.getD []).isEmpty = false := by simpa using bare
      simp [filled]

theorem parseArgs_putArgs (free : NulFree (optionPrefix.getD []))
    (valuesFree : ∀ setting value, o.read setting = some value → NulFree value) :
    parseArgs {} (putArgs o optionPrefix) optionPrefix =
      { o with
        useGoogleApiAuth := o.useGoogleApiAuth && (optionPrefix.getD []).isEmpty
        retryLimit := o.retryLimit.or (some (text "4"))
        retryDelay := o.retryDelay.or (some (text "1000")) } := by
  rw [putArgs_eq, parseArgs_append, parseArgs_append, parseArgs_flag]
  obtain ⟨front, unset⟩ := parseArgs_arguments free valuesFree Setting.front {}
  generalize parseArgs {} (Setting.front.flatMap (arguments o (optionPrefix.getD []))) optionPrefix =
    start at front unset ⊢
  have last := parseArgs_arguments free valuesFree [.loadBalancingPolicy]
    { start with useGoogleApiAuth :=
        start.useGoogleApiAuth || (o.useGoogleApiAuth && (optionPrefix.getD []).isEmpty) }
  rw [List.flatMap_singleton, unset] at last
  rw [unset]
  obtain ⟨read, flag⟩ := last
  generalize parseArgs _ (arguments o (optionPrefix.getD []) .loadBalancingPolicy) optionPrefix = parsed at read flag ⊢
  have values : parsed.read = fun setting => (o.read setting).or (({} : ConnectionOptions).read setting) := by
    funext setting
    rw [read, read_flag start, front]
    cases setting <;> rfl
  rw [← ofRead_read parsed, values, flag]
  simp [ofRead, ConnectionOptions.read]

theorem roundTrips_iff (free : NulFree (optionPrefix.getD []))
    (valuesFree : ∀ setting value, o.read setting = some value → NulFree value) :
    RoundTrips o optionPrefix ↔ o.useGoogleApiAuth = false ∨ optionPrefix.getD [] = [] := by
  have back := parseArgs_putArgs free valuesFree
  constructor
  next =>
    intro trips
    have restored := congrArg useGoogleApiAuth (back.symm.trans trips.restored)
    by_contra neither
    obtain ⟨set, behind⟩ := not_or.mp neither
    simp_all
  next =>
    intro fine
    have kept : (o.useGoogleApiAuth && (optionPrefix.getD []).isEmpty) = o.useGoogleApiAuth := by
      rcases fine with unset | bare
      next => rw [unset, Bool.false_and]
      next => simp [bare]
    refine ⟨fun arg member => ?_, by rw [back, kept]⟩
    rw [putArgs_eq] at member
    have spelled (setting : Setting) (member : arg ∈ arguments o (optionPrefix.getD []) setting) :
        (parseArg {} (some (cString arg)) optionPrefix).1 = true := by
      obtain ⟨value, found, rfl⟩ := List.mem_map.mp member
      rw [cString_spelled free (valuesFree setting value (Option.mem_toList.mp found)), parseArg_spelled]
    rcases List.mem_append.mp member with earlier | last
    next =>
      rcases List.mem_append.mp earlier with front | flagged
      next =>
        obtain ⟨setting, -, member⟩ := List.mem_flatMap.mp front
        exact spelled setting member
      next =>
        unfold flag at flagged
        split_ifs at flagged with set
        next =>
          obtain rfl := List.mem_singleton.mp flagged
          have bare := fine.resolve_left (by simp [set])
          change (parseArg {} (some (text "--googleapi-auth")) optionPrefix).1 = true
          rw [parseArg_flag, if_pos bare]
        next => cases flagged
    next => exact spelled _ last

section Samples

def authorised : ConnectionOptions := { url := some (text "grpcs://cas"), useGoogleApiAuth := true }

theorem authorised_nulFree (setting : Setting) (value : Bytes) (found : authorised.read setting = some value) :
    NulFree value := by
  cases setting <;> cases found <;> decide

theorem roundTrips_iff_authorised : RoundTrips authorised none ↔
    authorised.useGoogleApiAuth = false ∨ Option.getD none ([] : Bytes) = [] :=
  roundTrips_iff (by decide) authorised_nulFree

theorem flag_without_prefix : NulFree (text "cas-") ∧ equals ∉ text "cas-" ∧
    (∀ setting value, authorised.read setting = some value → NulFree value) ∧
    text "--googleapi-auth" ∈ putArgs authorised (some (text "cas-")) ∧
    (parseArg {} (some (text "--googleapi-auth")) (some (text "cas-"))).1 = false ∧
    (parseArgs {} (putArgs authorised (some (text "cas-"))) (some (text "cas-"))).useGoogleApiAuth = false ∧
    ¬RoundTrips authorised (some (text "cas-")) := by
  refine ⟨by decide, by decide, authorised_nulFree, by decide, by decide, by decide, fun trips => ?_⟩
  exact absurd (trips.accepted (text "--googleapi-auth") (by decide)) (by decide)

end Samples

end RoundTrip

end ConnectionOptions

end BuildboxCommon
