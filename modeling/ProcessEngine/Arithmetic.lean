/-!
# Powers and sums

A power or a sum of numbers is that of the core library, also where a module
knows of further structure on the numbers.
-/

attribute [instance (20000), default_instance 20000] instPowNat
attribute [instance (20000)] Zero.ofOfNat0
