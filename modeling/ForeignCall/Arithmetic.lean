/-!
# ForeignCall.Arithmetic

Powers of numbers are the built-in ones, whatever other notion of a power is
known where they are written.
-/

attribute [instance (high), default_instance high] instPowNat
