import BuildboxCommon.CommandLine.Acceptance
import BuildboxCommon.ConnectionOptions.PutArgs

set_option autoImplicit false

namespace BuildboxCommon.ConnectionOptionsCommandLine

open ByteString CommandLineTypes CommandLine ConnectionOptions Effect

variable {δ : Type}

def option (name desc : Bytes) (dataType : DataType) (occurrence : Occurrence) (defaultValue : DefaultValue δ) :
    ArgumentSpec δ := ⟨name, desc, ⟨dataType, none⟩, occurrence, .withArg, defaultValue⟩

def spec (serviceName commandLinePrefix : Bytes) (connectionRequired : Bool) : List (ArgumentSpec δ) :=
  [option (commandLinePrefix ++ text "remote") (text "URL for the " ++ serviceName ++ text " service") .string
    (if connectionRequired then .required else .optional) .none,
  option (commandLinePrefix ++ text "instance") (text "Name of the " ++ serviceName ++ text " instance") .string
    .optional (.string []),
  option (commandLinePrefix ++ text "server-cert")
    (text "Public server certificate for " ++ serviceName ++ text " TLS (PEM-encoded)") .string .optional .none,
  option (commandLinePrefix ++ text "client-key")
    (text "Private client key for " ++ serviceName ++ text " TLS (PEM-encoded)") .string .optional .none,
  option (commandLinePrefix ++ text "client-cert")
    (text "Private client certificate for " ++ serviceName ++ text " TLS (PEM-encoded)") .string .optional .none,
  option (commandLinePrefix ++ text "access-token") (text "Access Token for authentication " ++ serviceName ++
    text (" (e.g. JWT, OAuth access token, etc), " ++ "will be included as an HTTP Authorization bearer token"))
    .string .optional .none,
  option (commandLinePrefix ++ text "token-reload-interval") (text "How long to wait before refreshing access token")
    .string .optional .none,
  option (commandLinePrefix ++ text "googleapi-auth") (text "Use GoogleAPIAuth for " ++ serviceName ++ text " service")
    .bool .optional (.bool false),
  option (commandLinePrefix ++ text "retry-limit")
    (text "Number of times to retry on grpc errors for " ++ serviceName ++ text " service") .string .optional
    (.string (text "4")),
  option (commandLinePrefix ++ text "retry-delay")
    (text "How long to wait in milliseconds before the first grpc retry for " ++ serviceName ++ text " service")
    .string .optional (.string (text "1000")),
  option (commandLinePrefix ++ text "load-balancing-policy") (text "Which grpc load balancing policy to use for " ++
    serviceName ++ text " service.\nValid options are 'round_robin' and 'grpclb'") .string .optional .none]

def stringOrNull (cml : CommandLine δ) (optionName : Bytes) : Except Exn (Option Bytes) :=
  if (OrderedEntries.get optionName cml.parsedArgs).isSome then do
    let value ← getString cml optionName
    return some (cString value)
  else return none

def boolOrFalse (cml : CommandLine δ) (optionName : Bytes) : Except Exn Bool :=
  if (OrderedEntries.get optionName cml.parsedArgs).isSome then getBool cml optionName else return false

def configureChannel (cml : CommandLine δ) (commandLinePrefix : Bytes) :
    Option ConnectionOptions → Except Exn (Bool × Option ConnectionOptions)
  | none => return (false, none)
  | some channel => do
    let url ← stringOrNull cml (commandLinePrefix ++ text "remote")
    let instanceName ← stringOrNull cml (commandLinePrefix ++ text "instance")
    let serverCertPath ← stringOrNull cml (commandLinePrefix ++ text "server-cert")
    let clientKeyPath ← stringOrNull cml (commandLinePrefix ++ text "client-key")
    let clientCertPath ← stringOrNull cml (commandLinePrefix ++ text "client-cert")
    let accessTokenPath ← stringOrNull cml (commandLinePrefix ++ text "access-token")
    let tokenReloadInterval ← stringOrNull cml (commandLinePrefix ++ text "token-reload-interval")
    let useGoogleApiAuth ← boolOrFalse cml (commandLinePrefix ++ text "googleapi-auth")
    let retryLimit ← stringOrNull cml (commandLinePrefix ++ text "retry-limit")
    let retryDelay ← stringOrNull cml (commandLinePrefix ++ text "retry-delay")
    let loadBalancingPolicy ← stringOrNull cml (commandLinePrefix ++ text "load-balancing-policy")
    return (true, some { channel with
      url := url
      instanceName := instanceName
      serverCertPath := serverCertPath
      clientKeyPath := clientKeyPath
      clientCertPath := clientCertPath
      accessTokenPath := accessTokenPath
      tokenReloadInterval := tokenReloadInterval
      useGoogleApiAuth := useGoogleApiAuth
      retryLimit := retryLimit
      retryDelay := retryDelay
      loadBalancingPolicy := loadBalancingPolicy })

section Specification

variable (serviceName p : Bytes) (connectionRequired : Bool)

def fallback : Setting → Option Bytes
  | .instanceName => some []
  | .retryLimit => some (text "4")
  | .retryDelay => some (text "1000")
  | _ => none

theorem setting_mem (setting : Setting) : ∃ entry ∈ (spec serviceName p connectionRequired : List (ArgumentSpec δ)),
    entry.name = p ++ setting.key ∧ entry.dataType = .string ∧
      entry.defaultValue = (fallback setting).elim .none .string := by
  cases setting <;> simp [spec, option, Setting.key, fallback, ArgumentSpec.dataType]

theorem flag_mem : ∃ entry ∈ (spec serviceName p connectionRequired : List (ArgumentSpec δ)),
    entry.name = p ++ text "googleapi-auth" ∧ entry.dataType = .bool ∧ entry.defaultValue = .bool false := by
  simp [spec, option, ArgumentSpec.dataType]

theorem names_eq : (spec serviceName p connectionRequired : List (ArgumentSpec δ)).map ArgumentSpec.name =
    [text "remote", text "instance", text "server-cert", text "client-key", text "client-cert", text "access-token",
      text "token-reload-interval", text "googleapi-auth", text "retry-limit", text "retry-delay",
      text "load-balancing-policy"].map (p ++ ·) := rfl

theorem distinctNames : DistinctNames (spec serviceName p connectionRequired : List (ArgumentSpec δ)) := by
  unfold DistinctNames
  rw [names_eq]
  exact ((List.nodup_map_iff (List.append_right_injective p)).mpr (by decide)).filter _

variable {serviceName p connectionRequired}

theorem name_cases {entry : ArgumentSpec δ} (member : entry ∈ spec serviceName p connectionRequired) :
    entry.name = p ++ text "googleapi-auth" ∨ ∃ setting : Setting, entry.name = p ++ setting.key := by
  have listed : entry.name ∈ (spec serviceName p connectionRequired : List (ArgumentSpec δ)).map ArgumentSpec.name :=
    List.mem_map.mpr ⟨entry, member, rfl⟩
  rw [names_eq, List.mem_map] at listed
  obtain ⟨key, known, named⟩ := listed
  rw [← named]
  simp only [List.mem_cons, List.not_mem_nil, or_false] at known
  rcases known with rfl | rfl | rfl | rfl | rfl | rfl | rfl | rfl | rfl | rfl | rfl
  exacts [.inr ⟨.remote, rfl⟩, .inr ⟨.instanceName, rfl⟩, .inr ⟨.serverCert, rfl⟩, .inr ⟨.clientKey, rfl⟩,
    .inr ⟨.clientCert, rfl⟩, .inr ⟨.accessToken, rfl⟩, .inr ⟨.tokenReloadInterval, rfl⟩, .inl rfl,
    .inr ⟨.retryLimit, rfl⟩, .inr ⟨.retryDelay, rfl⟩, .inr ⟨.loadBalancingPolicy, rfl⟩]

theorem name_filled {entry : ArgumentSpec δ} (member : entry ∈ spec serviceName p connectionRequired) :
    entry.name ≠ [] := by
  rcases name_cases member with named | ⟨setting, named⟩
  next => 
    rw [named]
    exact List.append_ne_nil_of_right_ne_nil _ (by decide)
  next =>
    rw [named]
    exact List.append_ne_nil_of_right_ne_nil _ (by cases setting <;> decide)

theorem required_name : ∀ entry ∈ (spec serviceName p connectionRequired : List (ArgumentSpec δ)), entry.isRequired →
    entry.name = p ++ Setting.key .remote := by
  simp [spec, option, ArgumentSpec.isRequired, ArgumentSpec.isOptional, Setting.key]

theorem default_sound : ∀ entry ∈ (spec serviceName p connectionRequired : List (ArgumentSpec δ)),
    entry.hasDefaultValue → ¬entry.isRequired ∧ entry.dataType = entry.defaultValue.dataType := by
  simp [spec, option, ArgumentSpec.isRequired, ArgumentSpec.isOptional, ArgumentSpec.hasDefaultValue,
    DefaultValue.hasValue, DefaultValue.dataType, ArgumentSpec.dataType]

theorem wants_argument : ∀ entry ∈ (spec serviceName p connectionRequired : List (ArgumentSpec δ)),
    entry.hasArgument := by
  simp [spec, option, ArgumentSpec.hasArgument]

end Specification

theorem key_injective {setting other : Setting} (same : setting.key = other.key) : setting = other := by
  revert same
  cases setting <;> cases other <;> decide

theorem key_ne_flag (setting : Setting) : setting.key ≠ text "googleapi-auth" := by
  cases setting <;> decide

section Reading

variable {s : CommandLine δ} {name value : Bytes} {stored : ArgumentMetaData δ}

theorem stringOrNull_some (found : OrderedEntries.get name s.parsedArgs = some stored)
    (held : scalar stored.argumentValue .string = .string value) (free : NulFree value) :
    stringOrNull s name = .ok (some value) := by
  obtain rfl : stored.argumentValue.str = value := DefaultValue.string.inj held
  unfold stringOrNull getString lookup
  rw [found]
  change Except.ok (some (cString stored.argumentValue.str)) = _
  rw [cString_of_nulFree free]

theorem stringOrNull_none (absent : OrderedEntries.get name s.parsedArgs = none) : stringOrNull s name = .ok none := by
  unfold stringOrNull
  rw [absent]
  rfl

theorem boolOrFalse_some {value : Bool} (found : OrderedEntries.get name s.parsedArgs = some stored)
    (held : scalar stored.argumentValue .bool = .bool value) : boolOrFalse s name = .ok value := by
  have known : stored.argumentValue.bool = some value := by
    unfold scalar at held
    cases known : stored.argumentValue.bool with
    | none => simp [known] at held
    | some stored => simpa [known] using held
  have got : getBool s name = .ok value := by
    unfold getBool lookup
    simp only [found, bind, Except.bind, known]
    rfl
  unfold boolOrFalse
  rw [found]
  exact got

end Reading

section Entries

variable {serviceName p : Bytes} {connectionRequired : Bool} {o : ConnectionOptions}
  {specOf : Setting → ArgumentSpec δ}

structure Specifies (serviceName p : Bytes) (connectionRequired : Bool) (specOf : Setting → ArgumentSpec δ) : Prop where
  mem : ∀ setting, specOf setting ∈ spec serviceName p connectionRequired
  name : ∀ setting, (specOf setting).name = p ++ setting.key
  string : ∀ setting, (specOf setting).dataType = .string
  default : ∀ setting, (specOf setting).defaultValue = (fallback setting).elim .none .string

theorem exists_specifies (serviceName p : Bytes) (connectionRequired : Bool) :
    ∃ specOf : Setting → ArgumentSpec δ, Specifies serviceName p connectionRequired specOf := by
  choose specOf mem name string default using setting_mem (δ := δ) serviceName p connectionRequired
  exact ⟨specOf, mem, name, string, default⟩

def entries (specOf : Setting → ArgumentSpec δ) (o : ConnectionOptions) (settings : List Setting) :
    List (ArgumentSpec δ × Bytes) :=
  settings.flatMap fun setting => (o.read setting).toList.map fun value => (specOf setting, value)

theorem mem_entries {settings : List Setting} {entry : ArgumentSpec δ × Bytes} :
    entry ∈ entries specOf o settings ↔
      ∃ setting ∈ settings, entry.1 = specOf setting ∧ o.read setting = some entry.2 := by
  simp only [entries, List.mem_flatMap, List.mem_map, Option.mem_toList]
  constructor
  next =>
    rintro ⟨setting, member, value, found, rfl⟩
    exact ⟨setting, member, rfl, found⟩
  next =>
    rintro ⟨setting, member, same, found⟩
    exact ⟨setting, member, entry.2, found, by rw [← same]⟩

variable (specifies : Specifies serviceName p connectionRequired specOf)

include specifies

theorem tokens_entries (settings : List Setting) :
    (entries specOf o settings).map (fun entry => token entry.1.name entry.2) = settings.flatMap (arguments o p) := by
  unfold entries arguments
  rw [List.map_flatMap]
  congr 1
  funext setting
  rw [List.map_map]
  congr 1
  funext value
  change token (specOf setting).name value = _
  rw [specifies.name]
  rfl

theorem find_entries {settings : List Setting} {setting : Setting} (member : setting ∈ settings) :
    (entries specOf o settings).find? (fun entry => entry.1.name = (specOf setting).name) =
      (o.read setting).map fun value => (specOf setting, value) := by
  cases found : (entries specOf o settings).find? fun entry => entry.1.name = (specOf setting).name with
  | none =>
    cases unset : o.read setting with
    | none => rfl
    | some value =>
      have given : (specOf setting, value) ∈ entries specOf o settings := mem_entries.mpr ⟨setting, member, rfl, unset⟩
      exact absurd (by simp) (List.find?_eq_none.mp found _ given)
  | some entry =>
    obtain ⟨other, -, same, value⟩ := mem_entries.mp (List.mem_of_find?_eq_some found)
    have name : entry.1.name = (specOf setting).name := by simpa using List.find?_some found
    rw [same, specifies.name, specifies.name, List.append_cancel_left_eq] at name
    obtain rfl := key_injective name
    rw [value, ← same]
    rfl

theorem find_specified (setting : Setting) :
    findOptionSpecByName (spec serviceName p connectionRequired) (specOf setting).name = some (specOf setting) :=
  (find_iff (distinctNames serviceName p connectionRequired) (name_filled (specifies.mem setting)) _).mpr
    ⟨specifies.mem setting, rfl⟩

theorem entries_known (free : equals ∉ p) (settings : List Setting) : ∀ entry ∈ entries specOf o settings,
    findOptionSpecByName (spec serviceName p connectionRequired) entry.1.name = some entry.1 ∧
      equals ∉ entry.1.name ∧ entry.1.dataType = .string := by
  intro entry member
  obtain ⟨setting, -, same, -⟩ := mem_entries.mp member
  rw [same]
  refine ⟨find_specified specifies setting, ?_, specifies.string setting⟩
  rw [specifies.name, List.mem_append, not_or]
  exact ⟨free, equals_not_mem_key setting⟩

theorem scan_settings (free : equals ∉ p) (settings : List Setting) :
    scan (spec serviceName p connectionRequired) (settings.flatMap (arguments o p)) =
      (entries specOf o settings, []) := by
  rw [← tokens_entries specifies]
  exact given_tokens fun entry member => (entries_known specifies free settings entry member).imp_right And.left

theorem not_helpOnly (free : equals ∉ p) (settings : List Setting) :
    ¬HelpOnly (spec serviceName p connectionRequired : List (ArgumentSpec δ)) (settings.flatMap (arguments o p)) := by
  rintro ⟨filled, help⟩
  obtain ⟨entry, member⟩ := List.exists_mem_of_ne_nil _ filled
  have name := help entry member
  rw [given, scan_settings specifies free] at member
  obtain ⟨setting, -, same, -⟩ := mem_entries.mp member
  rw [same, specifies.name] at name
  have length := congrArg List.length name
  have long : 6 ≤ setting.key.length := by cases setting <;> decide
  have short : (text "help").length = 4 := rfl
  rw [List.length_append, short] at length
  omega

variable [Zero δ] {stod : Bytes → Except Exn δ} {before : Nat → ArgumentValue δ} {processName : Bytes}
    {s : CommandLine δ}

section Settings

variable {settings : List Setting}

theorem stringOrNull_set {setting : Setting} {value : Bytes} (member : setting ∈ settings) (free : equals ∉ p)
    (set : o.read setting = some value) (valueFree : NulFree value)
    (passes : Passes stod (spec serviceName p connectionRequired) before
      (processName :: settings.flatMap (arguments o p)) s) : stringOrNull s (p ++ setting.key) = .ok (some value) := by
  have scanned : given (spec serviceName p connectionRequired) (settings.flatMap (arguments o p)) =
    entries specOf o settings := congrArg Prod.fst (scan_settings specifies free settings)
  have found := find_entries (o := o) specifies member
  rw [set, Option.map_some, ← scanned] at found
  obtain ⟨stored, there, held⟩ := Option.map_eq_some_iff.mp (passes.stored_given found)
  rw [specifies.string] at held
  have converted : conversion (specOf setting, value) = .string value := by
    simp only [conversion, specifies.string]
  rw [← specifies.name]
  exact stringOrNull_some there (held.trans converted) valueFree

theorem stringOrNull_unset {setting : Setting} (member : setting ∈ settings) (free : equals ∉ p)
    (unset : o.read setting = none)
    (passes : Passes stod (spec serviceName p connectionRequired) before
      (processName :: settings.flatMap (arguments o p)) s) :
        stringOrNull s (p ++ setting.key) = .ok (fallback setting) := by
  have scanned : given (spec serviceName p connectionRequired) (settings.flatMap (arguments o p)) =
    entries specOf o settings := congrArg Prod.fst (scan_settings specifies free settings)
  have found := find_entries (o := o) specifies member
  rw [unset, Option.map_none, ← scanned] at found
  have unseen (entry : ArgumentSpec δ × Bytes) (member : entry ∈ given (spec serviceName p connectionRequired)
      (processName :: settings.flatMap (arguments o p)).tail) : entry.1.name ≠ (specOf setting).name := by
    simpa using List.find?_eq_none.mp found entry member
  obtain ⟨present, held⟩ := passes.stored_default (distinctNames (δ := δ) serviceName p connectionRequired)
    (specifies.mem setting) (name_filled (specifies.mem setting)) (.inl (specifies.string setting)) unseen
  rw [specifies.string, specifies.default] at held
  rw [← specifies.name]
  cases instead : fallback setting with
  | none =>
    have bare : ¬(specOf setting).hasDefaultValue := by
      simp [ArgumentSpec.hasDefaultValue, specifies.default, instead, DefaultValue.hasValue, DefaultValue.dataType]
    exact stringOrNull_none (Option.not_isSome_iff_eq_none.mp fun found => bare (present.mp found).2)
  | some value =>
    have has : (specOf setting).hasDefaultValue := by
      simp [ArgumentSpec.hasDefaultValue, specifies.default, instead, DefaultValue.hasValue, DefaultValue.dataType]
    obtain ⟨stored, there⟩ := Option.isSome_iff_exists.mp
      (present.mpr ⟨not_helpOnly (o := o) specifies free settings, has⟩)
    have valueFree : NulFree value := by cases setting <;> cases instead <;> decide
    have default := held stored there
    rw [instead] at default
    exact stringOrNull_some there default valueFree

theorem boolOrFalse_unset (free : equals ∉ p)
    (passes : Passes stod (spec serviceName p connectionRequired) before
      (processName :: settings.flatMap (arguments o p)) s) :
        boolOrFalse s (p ++ text "googleapi-auth") = .ok false := by
  have scanned : given (spec serviceName p connectionRequired) (settings.flatMap (arguments o p)) =
    entries specOf o settings := congrArg Prod.fst (scan_settings specifies free settings)
  obtain ⟨entry, member, name, bool, default⟩ := flag_mem (δ := δ) serviceName p connectionRequired
  have unseen (other : ArgumentSpec δ × Bytes) (member : other ∈ given (spec serviceName p connectionRequired)
      (processName :: settings.flatMap (arguments o p)).tail) : other.1.name ≠ entry.name := by
    rw [List.tail_cons, scanned] at member
    obtain ⟨setting, -, same, -⟩ := mem_entries.mp member
    rw [same, specifies.name, name]
    exact fun equal => key_ne_flag setting (List.append_cancel_left equal)
  obtain ⟨present, held⟩ := passes.stored_default (distinctNames (δ := δ) serviceName p connectionRequired)
    member (name_filled member) (.inr (.inr bool)) unseen
  have has : entry.hasDefaultValue := by
    simp [ArgumentSpec.hasDefaultValue, default, DefaultValue.hasValue, DefaultValue.dataType]
  obtain ⟨stored, there⟩ := Option.isSome_iff_exists.mp
    (present.mpr ⟨not_helpOnly (o := o) specifies free settings, has⟩)
  have value := held stored there
  rw [bool, default] at value
  exact boolOrFalse_some (name ▸ there) value

theorem configureChannel_settings (all : ∀ setting, setting ∈ settings) (free : equals ∉ p)
    (valuesFree : ∀ setting value, o.read setting = some value → NulFree value)
    (passes : Passes stod (spec serviceName p connectionRequired) before
      (processName :: settings.flatMap (arguments o p)) s) (channel : ConnectionOptions) :
    configureChannel s p (some channel) =
      .ok (true, some (ofRead (fun setting => (o.read setting).or (fallback setting)) false)) := by
  have values (setting : Setting) :
    stringOrNull s (p ++ setting.key) = .ok ((o.read setting).or (fallback setting)) := by
    cases set : o.read setting with
    | some value => exact stringOrNull_set specifies (all setting) free set (valuesFree setting value set) passes
    | none => exact stringOrNull_unset specifies (all setting) free set passes
  have flag := boolOrFalse_unset specifies free passes
  unfold configureChannel
  rw [show stringOrNull s (p ++ text "remote") = _ from values .remote,
    show stringOrNull s (p ++ text "instance") = _ from values .instanceName,
    show stringOrNull s (p ++ text "server-cert") = _ from values .serverCert,
    show stringOrNull s (p ++ text "client-key") = _ from values .clientKey,
    show stringOrNull s (p ++ text "client-cert") = _ from values .clientCert,
    show stringOrNull s (p ++ text "access-token") = _ from values .accessToken,
    show stringOrNull s (p ++ text "token-reload-interval") = _ from values .tokenReloadInterval,
    show stringOrNull s (p ++ text "retry-limit") = _ from values .retryLimit,
    show stringOrNull s (p ++ text "retry-delay") = _ from values .retryDelay,
    show stringOrNull s (p ++ text "load-balancing-policy") = _ from values .loadBalancingPolicy, flag]
  rfl

end Settings

end Entries

section Agreement

-- No instance name and an empty one are the same.
def identified (o : ConnectionOptions) : ConnectionOptions := { o with instanceName := some (o.instanceName.getD []) }

variable [Zero δ] (stod : Bytes → Except Exn δ) (before : Nat → ArgumentValue δ) (processName serviceName p : Bytes)
  (connectionRequired : Bool) (channel o : ConnectionOptions)

def ParsersAgree : Prop :=
  ∃ s configured,
    parse stod (processName :: putArgs o (some p)) (create (spec serviceName p connectionRequired) before) =
      .ok true s ∧
    configureChannel s p (some channel) = .ok (true, some configured) ∧
    identified configured = identified (parseArgs {} (putArgs o (some p)) (some p))

variable {p o}

theorem parsersAgree_of_unset (pFree : NulFree p) (free : equals ∉ p)
    (valuesFree : ∀ setting value, o.read setting = some value → NulFree value) (located : o.url ≠ none)
    (unset : o.useGoogleApiAuth = false) :
    ParsersAgree stod before processName serviceName p connectionRequired channel o := by
  obtain ⟨specOf, specifies⟩ := exists_specifies (δ := δ) serviceName p connectionRequired
  let settings := Setting.front ++ [.loadBalancingPolicy]
  have all (setting : Setting) : setting ∈ settings := by cases setting <;> decide
  have args : putArgs o (some p) = settings.flatMap (arguments o p) := by
    rw [putArgs_eq, flag, unset, List.flatMap_append, List.flatMap_singleton]
    simp
  have named : ({ create (spec serviceName p connectionRequired) before with processName := processName }).spec =
    spec serviceName p connectionRequired := rfl
  obtain ⟨options, -, run⟩ := parseOptions_tokens stod (entries_known (o := o) specifies free settings) [] named
  rw [List.append_nil, tokens_entries specifies] at run
  have complete : ∀ entry ∈ (spec serviceName p connectionRequired : List (ArgumentSpec δ)), entry.isRequired →
      ∃ one ∈ (given (spec serviceName p connectionRequired) (settings.flatMap (arguments o p)) :
        List (ArgumentSpec δ × Bytes)), one.1.name = entry.name := by
    intro entry member required
    obtain ⟨value, set⟩ := Option.ne_none_iff_exists'.mp located
    refine ⟨(specOf .remote, value), ?_, ?_⟩
    next =>
      rw [given, scan_settings specifies free]
      exact mem_entries.mpr ⟨.remote, all _, rfl, set⟩
    next => rw [required_name entry member required, specifies.name]
  obtain ⟨s, parsed⟩ := parse_accepts stod run (not_helpOnly specifies free settings) (fun _ => name_filled) complete
    default_sound
  have configured := configureChannel_settings specifies all free valuesFree (parse_passes parsed) channel
  rw [← args] at parsed
  refine ⟨s, _, parsed, configured, ?_⟩
  have prefixFree : NulFree (Option.getD (some p) []) := pFree
  rw [parseArgs_putArgs prefixFree valuesFree]
  simp [identified, ofRead, fallback, ConnectionOptions.read, unset]

theorem not_parsersAgree_of_set (free : equals ∉ p) (set : o.useGoogleApiAuth = true) :
    ¬ParsersAgree stod before processName serviceName p connectionRequired channel o := by
  rintro ⟨s, configured, parsed, -⟩
  obtain ⟨specOf, specifies⟩ := exists_specifies (δ := δ) serviceName p connectionRequired
  let start : CommandLine δ := { create (spec serviceName p connectionRequired) before with processName := processName }
  have named : start.spec = spec serviceName p connectionRequired := rfl
  let last := arguments o p .loadBalancingPolicy
  obtain ⟨between, same, run⟩ := parseOptions_tokens stod (entries_known (o := o) specifies free Setting.front)
    (([dash, dash] ++ text "googleapi-auth") :: last) named
  rw [tokens_entries specifies] at run
  have args : putArgs o (some p) =
      Setting.front.flatMap (arguments o p) ++ ([dash, dash] ++ text "googleapi-auth") :: last := by
    rw [putArgs_eq, flag, set, if_pos rfl, List.append_assoc]
    rfl
  have dashed : ∀ value ∈ last.head?, charAt value 0 = dash ∧ charAt value 1 = dash := by
    intro value first
    obtain ⟨text, -, rfl⟩ := List.mem_map.mp (List.mem_of_mem_head? first)
    exact ⟨rfl, rfl⟩
  have unfit : ∀ entry, findOptionSpecByName between.spec (text "googleapi-auth") = some entry →
      entry.hasArgument ∧ ∀ value ∈ last.head?, charAt value 0 = dash ∧ charAt value 1 = dash := by
    intro entry found
    rw [same] at found
    exact ⟨wants_argument entry (List.mem_of_find?_eq_some found), dashed⟩
  obtain ⟨left, s', refused⟩ := parseOptions_bare stod (by decide) unfit
  have renamed : (modify fun s : CommandLine δ => { s with processName := processName } : Parsing δ PUnit)
      (create (spec serviceName p connectionRequired) before) = .ok ⟨⟩ start := rfl
  rw [args] at parsed
  unfold parse at parsed
  simp only at parsed
  rw [bind_ok _ renamed, bind_ok _ (run.trans refused), get_bind] at parsed
  cases parsed

theorem parsersAgree_iff (pFree : NulFree p) (free : equals ∉ p)
    (valuesFree : ∀ setting value, o.read setting = some value → NulFree value) (located : o.url ≠ none) :
    ParsersAgree stod before processName serviceName p connectionRequired channel o ↔ o.useGoogleApiAuth = false := by
  constructor
  next =>
    intro agree
    by_contra set
    exact not_parsersAgree_of_set stod before processName serviceName connectionRequired channel free
      (Bool.eq_true_of_not_eq_false set) agree
  next =>
    exact parsersAgree_of_unset stod before processName serviceName connectionRequired channel pFree free valuesFree located

section Samples

theorem parsersAgree_iff_authorised :
    ParsersAgree noDouble (fun _ => .initial) (text "tool") (text "CAS") [] false {} authorised ↔
      authorised.useGoogleApiAuth = false :=
  parsersAgree_iff noDouble _ _ _ false {} (by decide) (by decide) authorised_nulFree (by decide)

theorem flag_without_argument : NulFree ([] : Bytes) ∧ equals ∉ ([] : Bytes) ∧
    (∀ setting value, authorised.read setting = some value → NulFree value) ∧ authorised.url ≠ none ∧
    (parseArgs {} (putArgs authorised (some [])) (some [])).useGoogleApiAuth = true ∧
    ¬ParsersAgree noDouble (fun _ => .initial) (text "tool") (text "CAS") [] false {} authorised :=
  ⟨by decide, by decide, authorised_nulFree, by decide, by decide,
    not_parsersAgree_of_set noDouble _ _ _ false {} (by decide) rfl⟩

end Samples

end Agreement

end BuildboxCommon.ConnectionOptionsCommandLine
