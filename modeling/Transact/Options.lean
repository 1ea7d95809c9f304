/-!
# Options

What the user chooses for a compilation.
-/

set_option autoImplicit false

namespace Transact

/-- The choices for a compilation. -/
structure Options where
  /-- the text is meant to be laid out by a formatter afterwards -/
  format : Bool := false
  /-- the collation of operands that are compared case-sensitively -/
  collation : String := "Latin1_General_CS_AS_WS"
  /-- the table hint that the default lock stands for -/
  lockHint : String := "WITH(HOLDLOCK, ROWLOCK)"
deriving DecidableEq

namespace Options

instance : Inhabited Options := ⟨{}⟩

/-- The options with this choice of formatting. -/
def withFormat (o : Options) (format : Bool) : Options := { o with format := format }

/-- The options without formatting. -/
def noFormat (o : Options) : Options := o.withFormat false

/-- The options with this collation. -/
def withCollation (o : Options) (collation : String) : Options :=
  { o with collation := collation }

/-- The options with this lock hint. -/
def withLockHint (o : Options) (lockHint : String) : Options :=
  { o with lockHint := lockHint }

end Options

end Transact
