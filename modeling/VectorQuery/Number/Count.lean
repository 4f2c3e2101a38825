/-
# Counts

Powers of counts are those of the core library, whatever further structure on the natural numbers
is in scope, so a count means one thing in every module.
-/
namespace VectorQuery.Number

attribute [instance (2000)] instPowNat instNatPowNat

attribute [default_instance 20000] instPowNat

end VectorQuery.Number
