namespace Statechart

structure StateId where
  text : String
  deriving DecidableEq

structure EventId where
  text : String
  deriving DecidableEq

end Statechart
