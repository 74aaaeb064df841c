import BuildboxCommon.Merklize.Placements

set_option autoImplicit false

namespace BuildboxCommon

open ByteString FileUtils OrderedEntries

structure Canonical (directory : Directory) : Prop where
  files_sorted : directory.files.Pairwise fun a b => a.name < b.name
  directories_sorted : directory.directories.Pairwise fun a b => a.name < b.name
  symlinks_sorted : directory.symlinks.Pairwise fun a b => a.name < b.name
  files_directories : ∀ a ∈ directory.files, ∀ b ∈ directory.directories, a.name ≠ b.name
  files_symlinks : ∀ a ∈ directory.files, ∀ b ∈ directory.symlinks, a.name ≠ b.name
  directories_symlinks : ∀ a ∈ directory.directories, ∀ b ∈ directory.symlinks, a.name ≠ b.name

namespace NestedDirectory

section Messages

variable (hash : Bytes → Bytes) (codec : Encoding Directory)

mutual

def message : NestedDirectory → Directory
  | ⟨files, symlinks, subdirs⟩ =>
    ⟨files.map fun entry => entry.2.toFilenode entry.1, directoryNodes subdirs, symlinks.map symlinkNode, none⟩

def directoryNodes : List (Bytes × NestedDirectory) → List DirectoryNode
  | [] => []
  | (name, subdir) :: rest =>
    ⟨name, makeDigest hash (codec.serializeAsString (message subdir))⟩ :: directoryNodes rest

end

mutual

def messages : NestedDirectory → List Directory
  | ⟨files, symlinks, subdirs⟩ => subdirMessages subdirs ++ [message hash codec ⟨files, symlinks, subdirs⟩]

def subdirMessages : List (Bytes × NestedDirectory) → List Directory
  | [] => []
  | (_, subdir) :: rest => messages subdir ++ subdirMessages rest

end

def digestOf (directory : Directory) : Digest := makeDigest hash (codec.serializeAsString directory)

def store (digestMap : DigestStringMap) (directory : Directory) : DigestStringMap :=
  digestMap.assign (digestOf hash codec directory) (codec.serializeAsString directory)

theorem toDigest_eq (nd : NestedDirectory) (digestMap : DigestStringMap) :
    toDigest hash codec nd digestMap =
      (digestOf hash codec (message hash codec nd), (messages hash codec nd).foldl (store hash codec) digestMap) := by
  induction nd using NestedDirectory.induction generalizing digestMap with
  | step files symlinks subdirs ih =>
    have nodes : ∀ digestMap, subdirNodes hash codec subdirs digestMap =
        (directoryNodes hash codec subdirs,
          (subdirMessages hash codec subdirs).foldl (store hash codec) digestMap) := by
      induction subdirs with
      | nil => exact fun _ => rfl
      | cons first rest ihRest =>
        intro digestMap
        obtain ⟨name, subdir⟩ := first
        have here := ih (name, subdir) (by simp) digestMap
        have later := ihRest fun entry member => ih entry (by simp [member])
        simp [subdirNodes, here, later, directoryNodes, subdirMessages, digestOf]
    simp [toDigest, nodes, message, messages, store, digestOf]

theorem directoryNodes_eq (subdirs : List (Bytes × NestedDirectory)) :
    directoryNodes hash codec subdirs =
      subdirs.map fun entry => ⟨entry.1, digestOf hash codec (message hash codec entry.2)⟩ := by
  induction subdirs with
  | nil => rfl
  | cons first rest ih => simp [directoryNodes, ih, digestOf]

theorem mem_subdirMessages {subdirs : List (Bytes × NestedDirectory)} {directory : Directory} :
    directory ∈ subdirMessages hash codec subdirs ↔
      ∃ entry ∈ subdirs, directory ∈ messages hash codec entry.2 := by
  induction subdirs with
  | nil => simp [subdirMessages]
  | cons first rest ih => simp [subdirMessages, ih]

theorem mem_messages {nd : NestedDirectory} {directory : Directory} :
    directory ∈ messages hash codec nd ↔
      directory = message hash codec nd ∨ ∃ entry ∈ nd.subdirs, directory ∈ messages hash codec entry.2 := by
  obtain ⟨files, symlinks, subdirs⟩ := nd
  simp [messages, mem_subdirMessages, NestedDirectory.subdirs, or_comm]

theorem message_mem (nd : NestedDirectory) : message hash codec nd ∈ messages hash codec nd :=
  (mem_messages hash codec).mpr (.inl rfl)

theorem closed_messages {nd : NestedDirectory} {directory : Directory} (member : directory ∈ messages hash codec nd)
    {node : DirectoryNode} (listed : node ∈ directory.directories) :
    ∃ child ∈ subdirMessages hash codec nd.subdirs, node.digest = digestOf hash codec child := by
  induction nd using NestedDirectory.induction with
  | step files symlinks subdirs ih =>
    have inside (entry : Bytes × NestedDirectory) (within : entry ∈ subdirs) {child : Directory}
        (stored : child ∈ messages hash codec entry.2) : child ∈ subdirMessages hash codec subdirs :=
      (mem_subdirMessages hash codec).mpr ⟨entry, within, stored⟩
    rcases (mem_messages hash codec).mp member with rfl | ⟨entry, within, stored⟩
    next =>
      simp only [message, directoryNodes_eq, List.mem_map] at listed
      obtain ⟨entry, within, rfl⟩ := listed
      exact ⟨_, inside entry within (message_mem hash codec entry.2), rfl⟩
    next =>
      obtain ⟨child, found, same⟩ := ih entry within stored
      refine ⟨child, inside entry within ?_, same⟩
      exact (mem_messages hash codec).mpr (.inr ((mem_subdirMessages hash codec).mp found))

theorem subdirMessages_subset (nd : NestedDirectory) {directory : Directory}
    (member : directory ∈ subdirMessages hash codec nd.subdirs) : directory ∈ messages hash codec nd :=
  (mem_messages hash codec).mpr (.inr ((mem_subdirMessages hash codec).mp member))

end Messages

section Stored

variable {hash : Bytes → Bytes} (injective : Function.Injective hash) {codec : Encoding Directory}

include injective

theorem digestOf_injective {first second : Directory}
    (same : (digestOf hash codec first).key = (digestOf hash codec second).key) : first = second :=
  codec.serialize_injective (makeDigest_injective injective same)

theorem find_stored (directories : List Directory) (digestMap : DigestStringMap) (digest : Digest)
    (blob : Bytes) : (directories.foldl (store hash codec) digestMap).find digest = some blob ↔
      (∃ directory ∈ directories, (digestOf hash codec directory).key = digest.key ∧
        blob = codec.serializeAsString directory) ∨
      (∀ directory ∈ directories, (digestOf hash codec directory).key ≠ digest.key) ∧
        digestMap.find digest = some blob := by
  induction directories using List.reverseRecOn with
  | nil => simp
  | append_singleton directories directory ih =>
    rw [List.foldl_append, List.foldl_cons, List.foldl_nil, store, UnorderedMap.find_assign]
    by_cases same : digest.key = (digestOf hash codec directory).key
    next =>
      rw [if_pos same, Option.some.injEq]
      constructor
      next =>
        rintro rfl
        exact .inl ⟨directory, by simp, same.symm, rfl⟩
      next =>
        rintro (⟨other, -, alike, rfl⟩ | ⟨none, -⟩)
        next => rw [digestOf_injective injective (alike.trans same)]
        next => exact absurd same.symm (none directory (by simp))
    next =>
      have differs : ¬(digestOf hash codec directory).key = digest.key := fun h => same h.symm
      rw [if_neg same, ih]
      simp [or_and_right, exists_or, differs, forall_and, or_imp]

theorem find_message {nd : NestedDirectory} {digestMap : DigestStringMap} {directory : Directory}
    (member : directory ∈ messages hash codec nd) :
    (toDigest hash codec nd digestMap).2.find (digestOf hash codec directory) =
      some (codec.serializeAsString directory) := by
  rw [toDigest_eq, find_stored injective]
  exact .inl ⟨directory, member, rfl, rfl⟩

end Stored

section Samples

def xHash : Bytes := hexDigest 0x2d711642b726b04401627ca9fbac32f5c8530fb1903cc4db02258717921a4881

def xNode (name : Bytes) : FileNode := ⟨name, ⟨xHash, 1, []⟩, false, none⟩

def timedNode (executable : Bool) : FileNode :=
  ⟨text "f", ⟨xHash, 1, []⟩, executable, some ⟨[], some ⟨0, 1000⟩, none⟩⟩

def hashedFile : File := ⟨⟨xHash, 1, []⟩, false, none⟩

def runFile : FileNode := ⟨text "f", ⟨xHash, 1, []⟩, true, none⟩

def outwards : SymlinkNode := ⟨text "l", text "/elsewhere", none⟩

def filesOf (names : List Bytes) : Directory := ⟨names.map xNode, [], [], none⟩

def nodeOf (name : String) (hash : Nat) (size : Int) : DirectoryNode := ⟨text name, ⟨hexDigest hash, size, []⟩⟩

def hashedMessages : List (Directory × Bytes) :=
  [(filesOf [],
      hexDigest 0xe3b0c44298fc1c149afbf4c8996fb92427ae41e4649b934ca495991b7852b855),
    (filesOf [text "f"],
      hexDigest 0x0d423f10af9adc1f16ebfc16921bce09e40d6506db29f2f1b248deb485b39f88),
    (filesOf [text "g"],
      hexDigest 0x5162ad3b45918119d770053502285f652524edd44b764121ec5657a45ea6b622),
    (filesOf [text "h"],
      hexDigest 0x610758f52aead1efef42ce14b60fcebb14ef64339d89cbf0f97c459647eb30f3),
    (filesOf [text "f", text "g"],
      hexDigest 0x1a9e5829d75c7fec328535fa7dbf54fd0bcc03c99f8cf581110610dbfa9fe0e4),
    (filesOf [text "g", text "h"],
      hexDigest 0x089c1876fc32802298eec1c9e7aa0c8959e4728223b859a036723aa0bbc79b5e),
    (filesOf [text "f", text "g", text "h"],
      hexDigest 0x92ec5e2f826b9f3b2d27324eefd5fda98bdb69fc8f37b4184ef423e07862e722),
    (⟨[timedNode false], [], [], none⟩,
      hexDigest 0x33ff0dad59b27079a7381ca11dc637cf31532150a8fdf2ae1fce0dcf4705c292),
    (⟨[timedNode true],
      [nodeOf "d" 0xe3b0c44298fc1c149afbf4c8996fb92427ae41e4649b934ca495991b7852b855 0], [], none⟩,
      hexDigest 0xfa5987c2b56422e9037a61b116038171779fe37c19039be6fa3b009dde63fe05),
    (⟨[xNode (text "f")],
      [nodeOf "e" 0xe3b0c44298fc1c149afbf4c8996fb92427ae41e4649b934ca495991b7852b855 0], [], none⟩,
      hexDigest 0x7faee42c2ee72df8a00fcc7c1e75e9736c42d3025c1a55b85913bd594faf80f3),
    (⟨[],
      [nodeOf "d" 0x7faee42c2ee72df8a00fcc7c1e75e9736c42d3025c1a55b85913bd594faf80f3 148],
      [⟨text "l", text "d", none⟩], none⟩,
      hexDigest 0xb5de557f71896b13e3deb59fddfdb1368a55a4d17f3433782fe0cbb8ee7a025e),
    (⟨[],
      [nodeOf "d" 0x0d423f10af9adc1f16ebfc16921bce09e40d6506db29f2f1b248deb485b39f88 75],
      [⟨text "d", text "f", none⟩], none⟩,
      hexDigest 0xbf771317a48235e58e916e391e7a27541e614fb8053b6b7b937dc77d42123c08),
    (⟨[],
      [nodeOf "d" 0x0d423f10af9adc1f16ebfc16921bce09e40d6506db29f2f1b248deb485b39f88 75], [], none⟩,
      hexDigest 0xa9b897ece98f47a62cd1c15e8f472f7e3d6c8e9e4560141d9d9df267dc9d6904),
    (⟨[],
      [nodeOf "d" 0x5162ad3b45918119d770053502285f652524edd44b764121ec5657a45ea6b622 75],
      [⟨text "l", text "d", none⟩], none⟩,
      hexDigest 0x10813dc01fc8ccd97c55e9956a7cf96373c62f5975af23a63ac3602ea2aa5e59),
    (⟨[],
      [nodeOf "d" 0x610758f52aead1efef42ce14b60fcebb14ef64339d89cbf0f97c459647eb30f3 75], [], none⟩,
      hexDigest 0x2d34fd03bc269469391a7f912fb69aa26acc4d43aa635ce1e4557e476765e6c0),
    (⟨[],
      [nodeOf "d" 0x1a9e5829d75c7fec328535fa7dbf54fd0bcc03c99f8cf581110610dbfa9fe0e4 150],
      [⟨text "l", text "d", none⟩], none⟩,
      hexDigest 0x754d8b81b1b9a1fb95096585f2782c10bfe8d030841bc9613d99139b0fed4045),
    (⟨[],
      [nodeOf "d" 0x089c1876fc32802298eec1c9e7aa0c8959e4728223b859a036723aa0bbc79b5e 150],
      [⟨text "l", text "d", none⟩], none⟩,
      hexDigest 0x0c8c7f9130429c62f22eb3e5156869b446abeb4291735d892802cfd8e667e691),
    (⟨[],
      [nodeOf "d" 0x92ec5e2f826b9f3b2d27324eefd5fda98bdb69fc8f37b4184ef423e07862e722 225],
      [⟨text "l", text "d", none⟩], none⟩,
      hexDigest 0x29f7bc167602b2df89ac2347ed829698ec3147424e138206e942dbd85fb70ddc),
    (⟨[runFile], [], [], none⟩,
      hexDigest 0x31cbd182b05baccb142ab609d45bd940358be069c562b2b2a618bbd9c8dfade4),
    (⟨[runFile],
      [nodeOf "d" 0x7faee42c2ee72df8a00fcc7c1e75e9736c42d3025c1a55b85913bd594faf80f3 148],
      [⟨text "l", text "d/f", none⟩], none⟩,
      hexDigest 0xd71b9d61ee4525e7063a045d9dd4269e8840c8a889dcb8d81fd635bc1984df33),
    (⟨[], [], [outwards], none⟩,
      hexDigest 0x2b04f4e6c386107827e9ad9d04e61cf3dfcdece486258945e94f4abf9a01d30c),
    (⟨[xNode (text "l")], [], [outwards], none⟩,
      hexDigest 0xaa007bf3e2becf2a5ea404590eeda4bd757c1dd98c7b4227b8d18ce90f692026),
    (⟨[runFile],
      [nodeOf "a" 0x2b04f4e6c386107827e9ad9d04e61cf3dfcdece486258945e94f4abf9a01d30c 17,
        nodeOf "b" 0xaa007bf3e2becf2a5ea404590eeda4bd757c1dd98c7b4227b8d18ce90f692026 92], [], none⟩,
      hexDigest 0xd271d937cb0d567848b34ae513ab1bfb1b9314669a3703cbf1d7db8d3b74db9e),
    (⟨[],
      [nodeOf "d" 0x0d423f10af9adc1f16ebfc16921bce09e40d6506db29f2f1b248deb485b39f88 75],
      [⟨text "l", text "d", none⟩], none⟩,
      hexDigest 0x66fe9a779cac12811ae98410ba460c55ad94a10969a1de2530e8f551b50c20a4),
    (⟨[xNode (text "f")], [], [⟨text "l", text "f", none⟩], none⟩,
      hexDigest 0xa9c04a85e3e3512b76d86379a8ef0b7a620f296ce790c959957d41e9f430ce9e),
    (⟨[],
      [nodeOf "d" 0xa9c04a85e3e3512b76d86379a8ef0b7a620f296ce790c959957d41e9f430ce9e 83], [], none⟩,
      hexDigest 0x22f08941ac2f64b437ca2e76748dc04a8d101c902a7bfdb246b68adba6759a04),
    (⟨[],
      [nodeOf "" 0xe3b0c44298fc1c149afbf4c8996fb92427ae41e4649b934ca495991b7852b855 0], [], none⟩,
      hexDigest 0x6b80ba42c0a5f9fec3fde3985fb3ee5692ceff577123c82f9ac66d7d70663501),
    (⟨[],
      [nodeOf "a" 0x6b80ba42c0a5f9fec3fde3985fb3ee5692ceff577123c82f9ac66d7d70663501 70], [], none⟩,
      hexDigest 0x69a76d6605119cb341da80f2758dd27c9146ef72a14f111b422d8bc83933f8d1),
    (⟨[xNode (text "a")], [], [⟨text "a", text "b", none⟩], none⟩,
      hexDigest 0xffd263f84bb4398fef85e9f840e494cd36204eb769c7723855e31995b198037b)]

def wireSamples : List (Directory × Bytes) := hashedMessages.map fun sample => (sample.1, sample.1.wire)

def wireHash : Bytes → Bytes :=
  patch ((text "x", xHash) :: hashedMessages.map fun sample => (sample.1.wire, sample.2)) id

theorem wireHash_injective : Function.Injective wireHash :=
  patch_injective (by decide +kernel) (by decide +kernel) Function.injective_id

noncomputable def wireCodec : Codec Directory := .ofSamples wireSamples (by decide +kernel) (by decide +kernel)

noncomputable def wireFormat : WireFormat Directory :=
  .ofSamples wireSamples [] (fun _ => false) (by decide +kernel) (by decide +kernel) (by decide +kernel) (by simp)

end Samples

end NestedDirectory

end BuildboxCommon
