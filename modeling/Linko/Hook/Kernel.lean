import Mathlib.Logic.Function.Basic
/-!
# The functions behind the hooks

The functions of `HOOK_FUN` with their arguments, and what the original ones do
to the world outside. `fcntl` and `ioctl` on the flags of a descriptor are given
here, since the hooks change their arguments. What the other calls do is a
parameter.
-/

namespace Linko.Hook

abbrev Addr := UInt64

/-! ## Constants -/

def eintr : Int := 4

def ebadf : Int := 9

def eagain : Int := 11

def efault : Int := 14

def einprogress : Int := 115

def oNonblock : BitVec 32 := 0x800

/-- What `F_SETFL` can change: `O_APPEND`, `O_NONBLOCK`, `O_ASYNC`, `O_DIRECT`
and `O_NOATIME`. -/
def setflMask : BitVec 32 := 0x46c00

def fionbio : UInt64 := 0x5421

def solSocket : Int := 1

def soRcvtimeo : Int := 20

def soSndtimeo : Int := 21

/-! ## Calls -/

/-- The commands of `fcntl` with an `int`. -/
inductive IntCmd where
  | dupfd
  | dupfdCloexec
  | setfd
  | setsig
  | setown
  | setlease
  | notify
  | setpipeSz
  deriving DecidableEq, Repr

/-- Those without an argument. -/
inductive GetCmd where
  | getfd
  | getown
  | getsig
  | getlease
  | getpipeSz
  deriving DecidableEq, Repr

/-- Those with a `struct flock *`. -/
inductive LockCmd where
  | setlk
  | setlkw
  | getlk
  deriving DecidableEq, Repr

/-- Those with a pointer to an owner. -/
inductive OwnerCmd where
  | getownEx
  | setownEx
  deriving DecidableEq, Repr

/-- A command of `fcntl` with its argument. The hook has no case for the other
commands. -/
inductive Fcntl where
  | setfl (arg : BitVec 32)
  | getfl
  | int (cmd : IntCmd) (arg : BitVec 32)
  | get (cmd : GetCmd)
  | lock (cmd : LockCmd) (arg : Addr)
  | owner (cmd : OwnerCmd) (arg : Addr)
  | other (cmd : Int) (arg : UInt64)
  deriving DecidableEq, Repr

inductive Call where
  | sleep (seconds : UInt32)
  | usleep (usec : UInt32)
  | nanosleep (req rem : Addr)
  | socket (domain type protocol : Int)
  | connect (sockfd : Int) (addr : Addr) (addrlen : UInt32)
  | accept (s : Int) (addr addrlen : Addr)
  | read (fd : Int) (buf : Addr) (count : UInt64)
  | readv (fd : Int) (iov : Addr) (iovcnt : Int)
  | recv (sockfd : Int) (buf : Addr) (len : UInt64) (flags : Int)
  | recvfrom (sockfd : Int) (buf : Addr) (len : UInt64) (flags : Int) (srcAddr addrlen : Addr)
  | recvmsg (sockfd : Int) (msg : Addr) (flags : Int)
  | write (fd : Int) (buf : Addr) (count : UInt64)
  | writev (fd : Int) (iov : Addr) (iovcnt : Int)
  | send (s : Int) (msg : Addr) (len : UInt64) (flags : Int)
  | sendto (s : Int) (msg : Addr) (len : UInt64) (flags : Int) (dst : Addr) (tolen : UInt32)
  | sendmsg (s : Int) (msg : Addr) (flags : Int)
  | close (fd : Int)
  | fcntl (fd : Int) (cmd : Fcntl)
  | ioctl (fd : Int) (request : UInt64) (arg : Addr)
  | getsockopt (sockfd level optname : Int) (optval optlen : Addr)
  | setsockopt (sockfd level optname : Int) (optval : Addr) (optlen : UInt32)
  deriving DecidableEq, Repr

/-! ## The world -/

structure File where
  isSocket : Bool
  /-- The status flags. -/
  flags : BitVec 32
  deriving DecidableEq, Repr

/-- The open descriptors, what the hooks read of the memory, `errno`, and the
rest, which they do not look at. -/
structure World (ρ : Type) where
  files : Int → Option File
  /-- The `int` at an address, if it can be read. -/
  ints : Addr → Option (BitVec 32)
  /-- The `timespec` or `timeval` at an address. -/
  times : Addr → Option (Int × Int)
  errno : Int
  rest : ρ

namespace World

variable {ρ : Type}

def setFlags (w : World ρ) (fd : Int) (f : File) (flags : BitVec 32) : World ρ :=
  { w with files := Function.update w.files fd (some { f with flags := flags }) }

/-- A call that fails. -/
def fail (w : World ρ) (errno : Int) : World ρ × Int := ({ w with errno := errno }, -1)

end World

/-- The calls that are not given below, why `F_SETFL` refuses flags, and whether
`epoll_ctl` succeeds. A file does not refuse the flags it has, and it does not
refuse because of `O_NONBLOCK`. -/
structure Os (ρ : Type) where
  call : Call → World ρ → World ρ × Int
  refuses : File → BitVec 32 → Option Int
  accepts : ∀ f : File, refuses f (f.flags &&& ~~~oNonblock) = none
  epollCtl : World ρ → Bool

variable {ρ : Type}

/-- `O_NONBLOCK` in flags. -/
def nonblock (flags : BitVec 32) : Bool := flags &&& oNonblock ≠ 0

/-- `flags | O_NONBLOCK` or `flags & ~O_NONBLOCK` -/
def withNonblock (flags : BitVec 32) (on : Bool) : BitVec 32 :=
  if on then flags ||| oNonblock else flags &&& ~~~oNonblock

/-- `name_f` -/
def original (os : Os ρ) : Call → World ρ → World ρ × Int
  | .fcntl fd .getfl, w =>
    match w.files fd with
    | none => w.fail ebadf
    | some f => (w, f.flags.toInt)
  | .fcntl fd (.setfl arg), w =>
    match w.files fd with
    | none => w.fail ebadf
    | some f =>
      match os.refuses f (arg &&& ~~~oNonblock) with
      | some errno => w.fail errno
      | none => (w.setFlags fd f (f.flags &&& ~~~setflMask ||| arg &&& setflMask), 0)
  | .ioctl fd request arg, w =>
    if request = fionbio then
      match w.files fd, w.ints arg with
      | none, _ => w.fail ebadf
      | some _, none => w.fail efault
      | some f, some v => (w.setFlags fd f (withNonblock f.flags (v ≠ 0)), 0)
    else os.call (.ioctl fd request arg) w
  | c, w => os.call c w

/-- Whether `fstat` succeeds, and whether the descriptor is a socket. -/
def fstat (w : World ρ) (fd : Int) : World ρ × Option Bool :=
  match w.files fd with
  | none => ({ w with errno := ebadf }, none)
  | some f => (w, some f.isSocket)

/-! ## The bit of `O_NONBLOCK` -/

theorem oNonblock_eq : oNonblock = BitVec.twoPow 32 11 := by decide

theorem nonblock_eq (x : BitVec 32) : nonblock x = x.getLsbD 11 := by
  unfold nonblock
  rw [oNonblock_eq, BitVec.and_twoPow]
  cases x.getLsbD 11 <;> decide

theorem getLsbD_withNonblock (x : BitVec 32) (on : Bool) {i : Nat} (hi : i < 32) :
    (withNonblock x on).getLsbD i = if i = 11 then on else x.getLsbD i := by
  have hbit : oNonblock.getLsbD i = decide (11 = i) := by
    rw [oNonblock_eq, BitVec.getLsbD_twoPow]
    simp
  by_cases h11 : 11 = i
  · subst h11
    cases on <;> simp only [withNonblock, Bool.false_eq_true, if_false, if_true, BitVec.getLsbD_and,
      BitVec.getLsbD_or, BitVec.getLsbD_not, hbit] <;> simp
  · have h11' : ¬ i = 11 := fun he => h11 he.symm
    cases on <;> simp only [withNonblock, Bool.false_eq_true, if_false, if_true, BitVec.getLsbD_and,
      BitVec.getLsbD_or, BitVec.getLsbD_not, hbit] <;> simp [hi, h11, h11']

@[simp] theorem nonblock_withNonblock (x : BitVec 32) (on : Bool) : nonblock (withNonblock x on) = on := by
  rw [nonblock_eq, getLsbD_withNonblock x on (by decide), if_pos rfl]

@[simp] theorem withNonblock_nonblock (x : BitVec 32) : withNonblock x (nonblock x) = x := by
  apply BitVec.eq_of_getLsbD_eq
  intro i hi
  rw [getLsbD_withNonblock x _ hi, nonblock_eq]
  split
  · rename_i h11
    rw [h11]
  · rfl

theorem withNonblock_withNonblock (x : BitVec 32) (a b : Bool) :
    withNonblock (withNonblock x a) b = withNonblock x b := by
  apply BitVec.eq_of_getLsbD_eq
  intro i hi
  rw [getLsbD_withNonblock _ b hi, getLsbD_withNonblock x b hi]
  split
  · rfl
  · rename_i h11
    rw [getLsbD_withNonblock x a hi, if_neg h11]

theorem nonblock_setfl (old arg : BitVec 32) :
    nonblock (old &&& ~~~setflMask ||| arg &&& setflMask) = nonblock arg := by
  have hmask : setflMask[11] = true := by decide
  rw [nonblock_eq, nonblock_eq]
  simp [hmask]
end Linko.Hook
