import BuildboxCommon.FileUtils.PathPrefix
import BuildboxCommon.Shared.PathResolution
import Mathlib.Algebra.Order.Ring.Int

set_option autoImplicit false

namespace BuildboxCommon.Posix

open ByteString FileUtils LexicalPath PathResolution

def enoent : Nat := 2
def eio : Nat := 5
def enotdir : Nat := 20
def eisdir : Nat := 21
def eloop : Nat := 40

def sIsDir (stMode : Nat) : Bool := stMode &&& 0o170000 = 0o040000
def sIsReg (stMode : Nat) : Bool := stMode &&& 0o170000 = 0o100000
def sIsLnk (stMode : Nat) : Bool := stMode &&& 0o170000 = 0o120000

instance neZeroPermissions : NeZero 0o10000 := ⟨by decide⟩

inductive FileObject (ι : Type) where
  | regular (contents : Bytes) (permissions : Fin 0o10000) (mtime : Int)
  | directory (parent : ι) (entries : List (Bytes × ι)) (permissions : Fin 0o10000) (mtime : Int)
  | symlink (target : Bytes)

namespace FileObject

variable {ι : Type}

def shape : FileObject ι → Object ι Bytes
  | .regular _ _ _ => .leaf
  | .directory parent entries _ _ => .directory parent entries
  | .symlink target => .symlink ⟨isGlobal target, steps target⟩

def stMode : FileObject ι → Nat
  | .regular _ permissions _ => 0o100000 + permissions
  | .directory _ _ permissions _ => 0o040000 + permissions
  | .symlink _ => 0o120777

end FileObject

structure FileSystem (ι : Type) where
  root : ι
  currentDirectory : ι
  object : ι → FileObject ι
  denied : ι → Option Nat
  symlinkLimit : Nat
  named : ∀ directory parent entries permissions mtime,
    object directory = .directory parent entries permissions mtime → ∀ entry ∈ entries, IsName entry.1

structure OpenFlags where
  directory : Bool
  noFollow : Bool

def errnoOf : Fault → Nat
  | .notFound => enoent
  | .notDirectory => enotdir
  | .loop => eloop

namespace FileSystem

variable {ι : Type} (fs : FileSystem ι)

def graph : PathResolution.Graph ι Bytes := ⟨fs.root, fun object => (fs.object object).shape⟩

def pathname (follow : Bool) (dirFd : ι) (path : Bytes) : Except Nat ι :=
  let path := cString path
  if path = [] then .error enoent
  else
    match fs.graph.resolve follow fs.symlinkLimit (if isGlobal path then fs.root else dirFd) (steps path) with
    | .ok found => .ok found
    | .error fault => .error (errnoOf fault)

def granted (object : ι) : Except Nat ι :=
  match fs.denied object with
  | none => .ok object
  | some errno => .error errno

-- A symlink is only reached with `O_NOFOLLOW`.
def openat (dirFd : ι) (path : Bytes) (flags : OpenFlags) : Except Nat ι :=
  match fs.pathname (!flags.noFollow) dirFd path with
  | .error errno => .error errno
  | .ok found =>
    match fs.object found with
    | .symlink _ => .error (if flags.directory then enotdir else eloop)
    | .regular _ _ _ => if flags.directory then .error enotdir else fs.granted found
    | .directory _ _ _ _ => fs.granted found

def fstatatNoFollow (dirFd : ι) (path : Bytes) : Except Nat (FileObject ι) :=
  match fs.pathname false dirFd path with
  | .error errno => .error errno
  | .ok found => .ok (fs.object found)

def fstatat (follow : Bool) (dirFd : ι) (path : Bytes) : Except Nat (FileObject ι) :=
  match fs.pathname follow dirFd path with
  | .error errno => .error errno
  | .ok found => .ok (fs.object found)

def lstat (path : Bytes) : Except Nat Nat :=
  match fs.fstatatNoFollow fs.currentDirectory path with
  | .error errno => .error errno
  | .ok object => .ok object.stMode

def read (fd : ι) : Except Nat Bytes :=
  match fs.object fd with
  | .regular contents _ _ => .ok contents
  | .directory _ _ _ _ => .error eisdir
  | .symlink _ => .error eio

variable {fs}

theorem granted_ok {object found : ι} (opened : fs.granted object = .ok found) : found = object := by
  unfold granted at opened
  cases refused : fs.denied object with
  | none =>
    rw [refused] at opened
    exact (Except.ok.inj opened).symm
  | some errno => simp [refused] at opened

theorem isDirectory_iff (object : ι) : fs.graph.IsDirectory object ↔
    ∃ parent entries permissions mtime, fs.object object = .directory parent entries permissions mtime := by
  constructor
  next =>
    rintro ⟨parent, entries, kind⟩
    change (fs.object object).shape = _ at kind
    cases found : fs.object object with
    | directory => exact ⟨_, _, _, _, rfl⟩
    | regular | symlink => simp [found, FileObject.shape] at kind
  next =>
    rintro ⟨parent, entries, permissions, mtime, found⟩
    exact ⟨parent, entries, by simp [graph, found, FileObject.shape]⟩

theorem isLink_iff (object : ι) :
    fs.graph.IsLink object ↔ ∃ target, fs.object object = .symlink target := by
  constructor
  next =>
    rintro ⟨target, kind⟩
    change (fs.object object).shape = _ at kind
    cases found : fs.object object with
    | symlink target => exact ⟨target, rfl⟩
    | regular | directory => simp [found, FileObject.shape] at kind
  next =>
    rintro ⟨target, found⟩
    exact ⟨⟨isGlobal target, steps target⟩, by simp [graph, found, FileObject.shape]⟩

structure Opened (fs : FileSystem ι) (dirFd : ι) (path : Bytes) (flags : OpenFlags) (fd : ι) : Prop where
  reached : fs.pathname (!flags.noFollow) dirFd path = .ok fd
  not_link : ¬fs.graph.IsLink fd
  directory : flags.directory = true → fs.graph.IsDirectory fd

theorem openat_ok {dirFd : ι} {path : Bytes} {flags : OpenFlags} {fd : ι}
    (opened : fs.openat dirFd path flags = .ok fd) : Opened fs dirFd path flags fd := by
  unfold openat at opened
  cases reached : fs.pathname (!flags.noFollow) dirFd path with
  | error errno => simp [reached] at opened
  | ok found =>
    rw [reached] at opened
    cases kind : fs.object found with
    | symlink target => simp [kind] at opened
    | regular contents permissions mtime =>
      cases wanted : flags.directory with
      | true => simp [kind, wanted] at opened
      | false =>
        simp only [kind, wanted, Bool.false_eq_true, if_false] at opened
        obtain rfl := granted_ok opened
        exact ⟨reached, by simp [isLink_iff, kind], by simp [wanted]⟩
    | directory parent entries permissions mtime =>
      simp only [kind] at opened
      obtain rfl := granted_ok opened
      have directory : fs.graph.IsDirectory fd := (isDirectory_iff fd).mpr ⟨_, _, _, _, kind⟩
      exact ⟨reached, directory.not_link, fun _ => directory⟩

theorem openat_granted {dirFd : ι} {path : Bytes} {flags : OpenFlags} {fd : ι}
    (opened : fs.openat dirFd path flags = .ok fd) : fs.granted fd = .ok fd := by
  unfold openat at opened
  cases reached : fs.pathname (!flags.noFollow) dirFd path with
  | error errno => simp [reached] at opened
  | ok found =>
    have granted : fs.granted found = .ok fd := by
      cases kind : fs.object found <;> cases wanted : flags.directory <;> simp_all
    exact granted_ok granted ▸ granted

theorem steps_of_isName {name : Bytes} (proper : IsName name) : steps name = [.down name] := by
  have alone := List.splitOn_intercalate slash (by simpa using proper.no_slash) (by simp : [name] ≠ [])
  rw [List.intercalate_singleton] at alone
  rw [steps, alone, List.map_singleton, proper.classify]

theorem isName_relative {name : Bytes} (proper : IsName name) : isGlobal name = false := by
  obtain ⟨byte, bytes, rfl⟩ := List.exists_cons_of_ne_nil proper.nonempty
  simpa [isGlobal] using fun same : byte = slash => proper.no_slash (by simp [same])

theorem pathname_name {dirFd found : ι} {name : Bytes} (proper : IsName name)
    (reached : fs.pathname false dirFd name = .ok found) : fs.graph.enter dirFd (.down name) = .ok found := by
  simp only [pathname, cString_of_nulFree proper.nulFree, proper.nonempty, if_false, isName_relative proper,
    Bool.false_eq_true, steps_of_isName proper, Graph.resolve_one] at reached
  cases entered : fs.graph.enter dirFd (.down name) with
  | ok next =>
    rw [entered] at reached
    exact congrArg Except.ok (Except.ok.inj reached)
  | error fault => simp [entered] at reached

theorem steps_intercalate {names : List Bytes} (proper : ∀ name ∈ names, IsName name) (some : names ≠ []) :
    steps ([slash].intercalate names) = names.map .down := by
  rw [steps, List.splitOn_intercalate slash (fun name member => (proper name member).no_slash) some]
  exact List.map_congr_left fun name member => (proper name member).classify

theorem nulFree_intercalate {names : List Bytes} (proper : ∀ name ∈ names, IsName name) :
    NulFree ([slash].intercalate names) := by
  induction names with
  | nil => simp [NulFree]
  | cons name names ih =>
    have first := (proper name (by simp)).nulFree
    have later := ih fun other member => proper other (by simp [member])
    cases names with
    | nil => rwa [List.intercalate_singleton]
    | cons next names =>
      rw [List.intercalate_cons_cons, nulFree_append, nulFree_append]
      exact ⟨⟨first, by decide⟩, later⟩

theorem pathname_below {follow : Bool} {start dirFd fd : ι} {path : Bytes} {names : List Bytes} (free : NulFree path)
    (reached : fs.pathname true start path = .ok dirFd) (proper : ∀ name ∈ names, IsName name) (some : names ≠ [])
    (descent : fs.graph.Descent dirFd names fd) (plain : ¬fs.graph.IsLink fd) :
    fs.pathname follow start (path ++ slash :: [slash].intercalate names) = .ok fd := by
  have whole : NulFree (path ++ slash :: [slash].intercalate names) := by
    refine nulFree_append.mpr ⟨free, ?_⟩
    rw [NulFree, List.mem_cons, not_or]
    exact ⟨by decide, nulFree_intercalate proper⟩
  unfold pathname at reached ⊢
  rw [cString_of_nulFree free] at reached
  rw [cString_of_nulFree whole]
  have empty : path ≠ [] := by
    rintro rfl
    simp at reached
  simp only [empty, if_false] at reached ⊢
  have global : isGlobal (path ++ slash :: [slash].intercalate names) = isGlobal path := by
    obtain ⟨byte, bytes, rfl⟩ := List.exists_cons_of_ne_nil empty
    simp [isGlobal]
  rw [if_neg (by simp), global, steps_join, steps_intercalate proper some]
  cases resolved : fs.graph.resolve true fs.symlinkLimit (if isGlobal path then fs.root else start) (steps path) with
  | error fault => simp [resolved] at reached
  | ok here =>
    rw [resolved] at reached
    obtain rfl := Except.ok.inj reached
    obtain ⟨left, continued⟩ := Graph.resolve_append resolved
    rw [continued follow _ (by simpa using some), Graph.resolve_descent descent plain]

theorem pathname_render {n : NormalPath} (absolute : n.absolute = true) (root : fs.graph.IsDirectory fs.root)
    (follow : Bool) (start : ι) : fs.pathname follow start n.render =
      (fs.graph.resolve follow fs.symlinkLimit fs.root (n.names.map .down)).mapError errnoOf := by
  have global : isGlobal n.render = true := n.isGlobal_render.trans absolute
  have stays (rest : List (Step Bytes)) : fs.graph.resolve follow fs.symlinkLimit fs.root (.stay :: rest) =
      fs.graph.resolve follow fs.symlinkLimit fs.root rest :=
    Graph.resolve_plain _ _ (Graph.enter_stay root) root.not_link
  have walked : fs.graph.resolve follow fs.symlinkLimit fs.root (steps n.render) =
      fs.graph.resolve follow fs.symlinkLimit fs.root (n.names.map .down) := by
    have segments : n.segments = n.names := by rw [NormalPath.segments, n.anchored absolute]; rfl
    by_cases empty : n.names = []
    next =>
      have slashes : steps n.render = [.stay, .stay] := by
        rw [NormalPath.render, segments, empty, absolute]
        decide
      rw [slashes, stays, stays, empty, List.map_nil]
    next =>
      have split := splitOn_joinSegments n.absolute n.segments (segments ▸ empty) fun _ member => n.no_slash member
      rw [steps, NormalPath.render, split, if_pos absolute, List.map_cons, classify_nil, stays, segments,
        n.map_classify_names]
  rw [pathname]
  simp only [n.cString_render, render_nonempty, if_false, global, if_true, walked]
  cases fs.graph.resolve follow fs.symlinkLimit fs.root (n.names.map .down) <;> rfl

theorem isDirectory_root {follow : Bool} {n : NormalPath} (absolute : n.absolute = true) {start found : ι}
    (reached : fs.pathname follow start n.render = .ok found) : fs.graph.IsDirectory fs.root := by
  have global : isGlobal n.render = true := n.isGlobal_render.trans absolute
  obtain ⟨byte, bytes, shape⟩ := List.exists_cons_of_ne_nil (render_nonempty n)
  obtain ⟨rest, first⟩ : ∃ rest, steps n.render = .stay :: rest := by
    rw [shape] at global ⊢
    obtain rfl : byte = slash := by simpa [isGlobal] using global
    exact ⟨steps bytes, steps_join [] bytes⟩
  simp only [pathname, n.cString_render, render_nonempty, if_false, global, if_true, first] at reached
  cases entered : fs.graph.enter fs.root .stay with
  | ok next => exact Graph.isDirectory_of_enter entered
  | error fault =>
    have stuck (limit : Nat) : fs.graph.resolve follow limit fs.root (.stay :: rest) = .error fault := by
      cases limit <;> simp [Graph.resolve, Graph.advance, entered]
    simp [stuck] at reached

end FileSystem

end BuildboxCommon.Posix
