import Mathlib.Data.Nat.Notation

/-!
# Kernel error codes

The failure values shared by every system call.  The numeric codes are only
used at the trap boundary, so an enumeration is enough here.
-/

namespace Kairix

inductive SysError where
  | eperm
  | enoent
  | esrch
  | eintr
  | eio
  | enxio
  | e2big
  | enoexec
  | ebadf
  | echild
  | eagain
  | enomem
  | eacces
  | efault
  | enotblk
  | ebusy
  | eexist
  | exdev
  | enodev
  | enotdir
  | eisdir
  | einval
  | enfile
  | emfile
  | enotty
  | etxtbsy
  | efbig
  | enospc
  | espipe
  | erofs
  | emlink
  | epipe
  | edom
  | erange
  | edeadlk
  | enametoolong
  | enolck
  | enosys
  | enotempty
  | eloop
  | enomsg
  | enodata
  | ebadfd
  | eoverflow
  | enotsock
  | enoprotoopt
  | eprotonosupport
  | eopnotsupp
  | eafnosupport
  | eaddrinuse
  | eaddrnotavail
  | econnreset
  | enetunreach
  | etimedout
  | ehostunreach
  | eisconn
  | enotconn
  | econnrefused
  | einprogress
  | estale
  | ecanceled
  deriving DecidableEq, Repr

/-- Result of a system call: a nonnegative value or an error. -/
abbrev SyscallResult := Except SysError ℕ

end Kairix
