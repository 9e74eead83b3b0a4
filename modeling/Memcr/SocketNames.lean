import Memcr.ByteWords
import Memcr.FormatPrinting
import Memcr.ServiceSystem

namespace Memcr.SocketNames

open Memcr.ByteWords
open Memcr.FormatPrinting
open Memcr.ServiceSystem

/-- `sizeof(addr->sun_path)` -/
def sunPathSize : Nat := 108

def pathMax : Nat := 4096

def afUnix : Nat := 1

/-- `struct sockaddr_un` -/
structure SockaddrUn where
  sunFamily : Nat
  sunPath : List Char
  deriving DecidableEq

def clearedPath : List Char := List.replicate sunPathSize nul

/-- The formats are `%s` and `inDir` and `%u`, or `abstract` and `%u`. -/
def socketAddress (inDir abstract : CString) (dir : Option CString) (pid : Int) :
    SockaddrUn where
  sunFamily := afUnix
  sunPath :=
    match dir with
    | some dir =>
        snprintf clearedPath sunPathSize [.string dir, .literal inDir, .unsigned (ofInt32 pid)]
    | none =>
        (snprintf clearedPath sunPathSize [.literal abstract, .unsigned (ofInt32 pid)]).set 0 nul

/-- The format of the path behind the directory, up to the pid. -/
def parasitePath : CString := ⟨"/memcr".toList, by decide⟩

/-- The format of the abstract name, with a sign in front that is cleared later. -/
def parasiteName : CString := ⟨"#memcr".toList, by decide⟩

def restorePath : CString := ⟨"/memcrRestore".toList, by decide⟩

def restoreName : CString := ⟨"#memcrRestore".toList, by decide⟩

/-- `parasite_socket_init` -/
def parasiteSocketInit : Option CString → Int → SockaddrUn :=
  socketAddress parasitePath parasiteName

/-- `make_restore_socket_address` -/
def makeRestoreSocketAddress : Option CString → Int → SockaddrUn :=
  socketAddress restorePath restoreName

/-- The paths that are unlinked. -/
def removeRestoreSocketWorker (dir : Option CString) (pid : Int) : List (List Char) :=
  let addrRestore := makeRestoreSocketAddress dir pid
  if addrRestore.sunPath.headD nul ≠ nul then [stringAt addrRestore.sunPath] else []

def pagesPath : CString := ⟨"/pages-".toList, by decide⟩

def imgSuffix : CString := ⟨".img".toList, by decide⟩

/-- The paths that are unlinked. The buffer `path` is not initialised. -/
def cleanupPid (path : List Char) (dumpDir : CString) (dir : Option CString) (pid : Int) :
    List (List Char) :=
  let path := snprintf path pathMax
    [.string dumpDir, .literal pagesPath, .signed pid, .literal imgSuffix]
  stringAt path ::
    match dir with
    | none => []
    | some dir =>
        let path := snprintf path pathMax
          [.string dir, .literal parasitePath, .unsigned (ofInt32 pid)]
        stringAt path ::
          let path := snprintf path pathMax
            [.string dir, .literal restorePath, .unsigned (ofInt32 pid)]
          [stringAt path]

/-- A positive `pid_t`. -/
def IsPid (pid : Int) : Prop := 0 < pid ∧ pid < 2 ^ 31

/-- Different processes have different names, and no name serves for both sockets. The
service keeps its sockets by pid, which is right as long as this holds. -/
structure NamesIdentify (dumpDir : CString) (dir : Option CString) : Prop where
  parasite : ∀ p q, IsPid p → IsPid q →
    parasiteSocketInit dir p = parasiteSocketInit dir q → p = q
  restore : ∀ p q, IsPid p → IsPid q →
    makeRestoreSocketAddress dir p = makeRestoreSocketAddress dir q → p = q
  apart : ∀ p q, IsPid p → IsPid q →
    parasiteSocketInit dir p ≠ makeRestoreSocketAddress dir q
  /-- Besides the image of the dump. -/
  cleanup : dir.isSome → ∀ path p, IsPid p →
    (cleanupPid path dumpDir dir p).tail =
      [stringAt (parasiteSocketInit dir p).sunPath,
        stringAt (makeRestoreSocketAddress dir p).sunPath]

/-- What the number of the process is printed behind. -/
def stem (inDir abstract : CString) (dir : Option CString) : List Char :=
  match dir with
  | some dir => dir.text ++ inDir.text
  | none => abstract.text

section Names

variable {inDir abstract inDir' abstract' : CString} {dir : Option CString} {p q : Int}

theorem ofInt32_pid (hp : IsPid p) : ofInt32 p = p.toNat := by
  obtain ⟨hpos, hlt⟩ := hp
  rw [ofInt32, BitVec.toNat_ofInt]
  omega

theorem digits_pid (hp : IsPid p) : ofInt32 p < 10 ^ 10 := by
  have hlt := hp.2
  rw [ofInt32_pid hp]
  omega

theorem pid_eq_of_ofInt32_eq (hp : IsPid p) (hq : IsPid q) (heq : ofInt32 p = ofInt32 q) :
    p = q := by
  have hpos := hp.1
  rw [ofInt32_pid hp, ofInt32_pid hq] at heq
  omega

theorem printed_path (dir inDir : CString) (n : Nat) :
    printed [.string dir, .literal inDir, .unsigned n] =
      dir.text ++ inDir.text ++ Nat.toDigits 10 n := by
  simp [printed, Item.text]

theorem printed_name (abstract : CString) (n : Nat) :
    printed [.literal abstract, .unsigned n] = abstract.text ++ Nat.toDigits 10 n := by
  simp [printed, Item.text]

theorem set_zero_inj {α : Type*} {a : α} {l m : List α} (hhead : l.head? = m.head?) :
    l.set 0 a = m.set 0 a ↔ l = m := by
  rcases l with _ | ⟨x, l⟩ <;> rcases m with _ | ⟨y, m⟩ <;> simp_all

theorem socketAddress_eq_iff (hne : abstract.text ≠ [])
    (hhead : abstract.text.head? = abstract'.text.head?) :
    socketAddress inDir abstract dir p = socketAddress inDir' abstract' dir q ↔
      (stem inDir abstract dir ++ Nat.toDigits 10 (ofInt32 p)).take (sunPathSize - 1) =
        (stem inDir' abstract' dir ++ Nat.toDigits 10 (ofInt32 q)).take (sunPathSize - 1) := by
  have hsize : 0 < sunPathSize := by decide
  rcases dir with _ | dir
  · have hhead? : ∀ (abs : CString) (n : Nat), abs.text ≠ [] →
        (snprintf clearedPath sunPathSize [.literal abs, .unsigned n]).head? =
          abs.text.head? := by
      intro abs n habs
      obtain ⟨c, rest, hcons⟩ := List.exists_cons_of_ne_nil habs
      rw [head?_snprintf (by decide) _ (by simp [printed_name, habs]), printed_name, hcons]
      rfl
    have hne' : abstract'.text ≠ [] := by
      rintro hnil
      rw [hnil] at hhead
      exact hne (by simpa using hhead)
    simp only [socketAddress, SockaddrUn.mk.injEq, true_and]
    rw [set_zero_inj (by rw [hhead? _ _ hne, hhead? _ _ hne', hhead]), clearedPath,
      snprintf_cleared_inj hsize, printed_name, printed_name]
    rfl
  · simp only [socketAddress, SockaddrUn.mk.injEq, true_and]
    rw [clearedPath, snprintf_cleared_inj hsize, printed_path, printed_path]
    rfl

theorem stringAt_sunPath_inj {d : CString} :
    stringAt (socketAddress inDir abstract (some d) p).sunPath =
        stringAt (socketAddress inDir' abstract' (some d) q).sunPath ↔
      socketAddress inDir abstract (some d) p = socketAddress inDir' abstract' (some d) q := by
  have hsize : 0 < sunPathSize := by decide
  simp only [socketAddress, SockaddrUn.mk.injEq, true_and, clearedPath]
  rw [stringAt_snprintf hsize, stringAt_snprintf hsize, snprintf_cleared_inj hsize]

theorem socketAddress_inj_iff (hne : abstract.text ≠ []) :
    (∀ p q, IsPid p → IsPid q →
      socketAddress inDir abstract dir p = socketAddress inDir abstract dir q → p = q) ↔
      (stem inDir abstract dir).length + 10 < sunPathSize := by
  constructor
  · intro hinj
    by_contra hlong
    have hfirst : IsPid 1000000000 := ⟨by decide, by decide⟩
    have hsecond : IsPid 1000000001 := ⟨by decide, by decide⟩
    have hcut : sunPathSize - 1 ≤
        (stem inDir abstract dir).length + (Nat.toDigits 10 100000000).length := by
      have hdigits : (Nat.toDigits 10 100000000).length = 9 := by decide
      omega
    refine absurd (hinj _ _ hfirst hsecond ?_) (by decide)
    rw [socketAddress_eq_iff hne rfl, ofInt32_pid hfirst, ofInt32_pid hsecond]
    exact numbered_take_eq (by decide) 0 1 hcut
  · intro hfits p q hp hq heq
    rw [socketAddress_eq_iff hne rfl] at heq
    exact pid_eq_of_ofInt32_eq hp hq
      (eq_of_numbered_take_eq (by decide) (by omega) (digits_pid hp) (digits_pid hq) heq)

theorem stem_restore (dir : Option CString) :
    stem restorePath restoreName dir =
      stem parasitePath parasiteName dir ++ "Restore".toList := by
  rcases dir with _ | dir
  · decide
  · rw [stem, stem, List.append_assoc]
    congr 1

theorem parasite_ne_restore_iff (dir : Option CString) (p q : Int) :
    parasiteSocketInit dir p ≠ makeRestoreSocketAddress dir q ↔
      (stem parasitePath parasiteName dir).length + 1 < sunPathSize := by
  obtain ⟨c, digits, hdigits⟩ :=
    List.exists_cons_of_ne_nil (@Nat.toDigits_ne_nil (ofInt32 p) 10)
  have hdigit : c.isDigit = true :=
    Nat.isDigit_of_mem_toDigits (b := 10) (by decide) le_rfl
      (hdigits ▸ List.mem_cons_self)
  have hne : c ≠ 'R' := by
    rintro rfl
    exact absurd hdigit (by decide)
  have hletters : "Restore".toList = 'R' :: "estore".toList := by decide
  rw [parasiteSocketInit, makeRestoreSocketAddress, ne_eq,
    socketAddress_eq_iff (by decide) (by decide), stem_restore, hletters, hdigits,
    List.append_assoc, List.cons_append, take_append_cons_eq_iff hne]
  omega

theorem stringAt_path_eq_iff (path : List Char) (d : CString) :
    stringAt (snprintf path pathMax [.string d, .literal inDir, .unsigned (ofInt32 p)]) =
        stringAt (socketAddress inDir abstract (some d) p).sunPath ↔
      d.text.length + inDir.text.length + (Nat.toDigits 10 (ofInt32 p)).length <
        sunPathSize := by
  simp only [socketAddress]
  rw [stringAt_snprintf (by decide), stringAt_snprintf (by decide), printed_path,
    List.take_eq_take_iff, List.length_append, List.length_append]
  simp only [pathMax, sunPathSize]
  omega

theorem cleanupPid_eq_iff (path : List Char) (dumpDir d : CString) (p : Int) :
    (cleanupPid path dumpDir (some d) p).tail =
        [stringAt (parasiteSocketInit (some d) p).sunPath,
          stringAt (makeRestoreSocketAddress (some d) p).sunPath] ↔
      d.text.length + restorePath.text.length + (Nat.toDigits 10 (ofInt32 p)).length <
        sunPathSize := by
  have hlength : parasitePath.text.length ≤ restorePath.text.length := by decide
  simp only [cleanupPid, List.tail_cons, List.cons.injEq, and_true, parasiteSocketInit,
    makeRestoreSocketAddress, stringAt_path_eq_iff]
  omega

theorem removeRestoreSocketWorker_eq (dir : Option CString) (pid : Int) :
    removeRestoreSocketWorker dir pid =
      (dir.map fun _ => stringAt (makeRestoreSocketAddress dir pid).sunPath).toList := by
  rcases dir with _ | d
  · have hfirst : ∀ buf : List Char, (buf.set 0 nul).headD nul = nul := by
      rintro (_ | ⟨c, rest⟩) <;> rfl
    simp only [removeRestoreSocketWorker, makeRestoreSocketAddress, socketAddress, hfirst]
    rfl
  · have htext := printed_path d restorePath (ofInt32 pid)
    obtain ⟨c, rest, hcons⟩ := List.exists_cons_of_ne_nil
      (l := printed [.string d, .literal restorePath, .unsigned (ofInt32 pid)])
      (by rw [htext]; simp)
    have hne : c ≠ nul := by
      rintro rfl
      exact nul_notMem_printed _ (hcons ▸ List.mem_cons_self)
    have hfirst : (makeRestoreSocketAddress (some d) pid).sunPath.headD nul = c := by
      rw [List.headD_eq_head?_getD, makeRestoreSocketAddress, socketAddress,
        head?_snprintf (by decide) _ (by rw [hcons]; simp), hcons]
      rfl
    rw [removeRestoreSocketWorker, hfirst, if_pos hne]
    rfl

end Names

section Identification

theorem stem_restore_fits_iff (dir : Option CString) :
    (stem restorePath restoreName dir).length + 10 < sunPathSize ↔
      ∀ d ∈ dir, d.text.length ≤ 84 := by
  rcases dir with _ | d
  · simp only [Option.not_mem_none, IsEmpty.forall_iff, implies_true, iff_true]
    decide
  · have hpath : restorePath.text.length = 13 := by decide
    simp only [stem, List.length_append, hpath, sunPathSize, Option.mem_def, Option.some.injEq,
      forall_eq']
    omega

theorem namesIdentify_of_fits (dumpDir : CString) {dir : Option CString}
    (hfits : (stem restorePath restoreName dir).length + 10 < sunPathSize) :
    NamesIdentify dumpDir dir := by
  have hlonger : (stem restorePath restoreName dir).length =
      (stem parasitePath parasiteName dir).length + 7 := by
    rw [stem_restore, List.length_append]
    rfl
  refine ⟨?_, (socketAddress_inj_iff (by decide)).mpr hfits, ?_, ?_⟩
  · apply (socketAddress_inj_iff (by decide)).mpr
    omega
  · intro p q _ _
    apply (parasite_ne_restore_iff dir p q).mpr
    omega
  · intro hdir path p hp
    obtain ⟨d, rfl⟩ := Option.isSome_iff_exists.mp hdir
    apply (cleanupPid_eq_iff path dumpDir d p).mpr
    have hdigits := (Nat.length_toDigits_le_iff (by decide) (by decide)).mpr (digits_pid hp)
    simp only [stem, List.length_append] at hfits
    omega

theorem names_identify_iff (dumpDir : CString) (dir : Option CString) :
    NamesIdentify dumpDir dir ↔ ∀ d ∈ dir, d.text.length ≤ 84 := by
  rw [← stem_restore_fits_iff]
  constructor
  · intro hnames
    exact (socketAddress_inj_iff (by decide)).mp hnames.restore
  · exact namesIdentify_of_fits dumpDir

def longDir : CString := ⟨List.replicate 101 'd', by decide⟩

theorem longDir_names_clash :
    parasiteSocketInit (some longDir) 7 = parasiteSocketInit (some longDir) 8 ∧
      makeRestoreSocketAddress (some longDir) 7 = makeRestoreSocketAddress (some longDir) 8 ∧
      parasiteSocketInit (some longDir) 7 = makeRestoreSocketAddress (some longDir) 8 ∧
      ¬ NamesIdentify ⟨[], by decide⟩ (some longDir) := by
  have hclash : parasiteSocketInit (some longDir) 7 = parasiteSocketInit (some longDir) 8 := by
    decide +kernel
  refine ⟨hclash, by decide +kernel, by decide +kernel, ?_⟩
  intro hnames
  exact absurd (hnames.parasite 7 8 ⟨by decide, by decide⟩ ⟨by decide, by decide⟩ hclash)
    (by decide)

theorem cleanupPid_sock {d : CString} (hshort : d.text.length ≤ 84) (path : List Char)
    (dumpDir : CString) {s : Sys} {owner : List Char → Option Nat}
    (hsock : ∀ q, IsPid q →
      s.sock q = owner (stringAt (makeRestoreSocketAddress (some d) q).sunPath))
    {p q : Int} (hp : IsPid p) (hq : IsPid q) :
    (s.cleanupPid true p).sock q =
      if stringAt (makeRestoreSocketAddress (some d) q).sunPath ∈
          (cleanupPid path dumpDir (some d) p).tail then none
      else owner (stringAt (makeRestoreSocketAddress (some d) q).sunPath) := by
  have hnames : NamesIdentify dumpDir (some d) :=
    namesIdentify_of_fits dumpDir ((stem_restore_fits_iff _).mpr (by simpa using hshort))
  rw [hnames.cleanup rfl path p hp, ← hsock q hq]
  by_cases hsame : q = p
  · subst hsame
    simp [Sys.cleanupPid, Sys.unlinkSock]
  · have hparasite : stringAt (makeRestoreSocketAddress (some d) q).sunPath ≠
        stringAt (parasiteSocketInit (some d) p).sunPath := fun heq =>
      hnames.apart p q hp hq (stringAt_sunPath_inj.mp heq.symm)
    have hrestore : stringAt (makeRestoreSocketAddress (some d) q).sunPath ≠
        stringAt (makeRestoreSocketAddress (some d) p).sunPath := fun heq =>
      hsame (hnames.restore q p hq hp (stringAt_sunPath_inj.mp heq))
    simp [Sys.cleanupPid, Sys.unlinkSock, hsame, hparasite, hrestore]

end Identification

end Memcr.SocketNames
